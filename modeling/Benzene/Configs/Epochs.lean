import Benzene.Common.Numbering

/-!
# Blocks and epochs

The schedules of mainnet and localnet have a long first epoch, then epochs of one length, and from
the switch epoch `T` (`TwoSecondsEpoch`) on epochs of another length; testnet has no long first
epoch.  The epoch of a block, the test for a last block and the last block of an epoch are three
separate functions.  Their numbers stay in 64 bits, but for the difference that is negative for
`T = 0` and wraps around (`u64`).

* `epochs_agree_iff`: the functions of mainnet and localnet agree at a block, but for mainnet with
  `T = 0`, where the first epoch is long for `IsLastBlock` and `EpochLastBlock` and short for
  `CalcEpochNumber`: there they differ from the end of the short one to that of the long one.
* `testnet_epochs_agree`: those of testnet agree for every `T`.
-/

namespace Benzene

/-- The `uint64` of an expression. -/
def u64 (x : ℤ) : ℕ := (x % 2 ^ 64).toNat

theorem u64_pred {n : ℕ} (h0 : 0 < n) (h : n < 2 ^ 64) : u64 (n - 1) + 1 = n := by
  unfold u64
  omega

/-- What a schedule reads of its chain configuration.  `IsTwoSeconds` is not in the repository; that
    it holds from the switch epoch on is its law.  The first block of the switch epoch has a 64-bit
    number in every schedule. -/
structure SwitchConfig where
  twoSecondsEpoch : ℕ
  isTwoSeconds : ℕ → Bool
  isTwoSeconds_iff : ∀ e, isTwoSeconds e = true ↔ twoSecondsEpoch ≤ e
  twoSecondsEpoch_fits : twoSecondsEpoch * 16384 + 344064 < 2 ^ 64

/-- The constants of a schedule with a long first epoch. -/
structure EpochSchedule where
  epochBlock1 : ℕ
  blocksPerEpochOld : ℕ
  blocksPerEpoch : ℕ

/-- The constants of internal/configs/sharding/mainnet.go:14-16. -/
def mainnetSchedule : EpochSchedule := ⟨344064, 16384, 32768⟩

/-- The constants of internal/configs/sharding/localnet.go:22-24. -/
def localnetSchedule : EpochSchedule := ⟨10, 5, 10⟩

namespace EpochSchedule

variable (sch : EpochSchedule) (cfg : SwitchConfig)

/-- `twoSecondsFirstBlock` (internal/configs/sharding/mainnet.go:117-122, localnet.go:54-59). -/
def twoSecondsFirstBlock : ℕ :=
  if cfg.twoSecondsEpoch = 0 then 0
  else (cfg.twoSecondsEpoch - 1) * sch.blocksPerEpochOld + sch.epochBlock1

/-- The variable `oldEpochNumber` of `CalcEpochNumber`. -/
def oldEpochNumber (blockNum : ℕ) : ℕ :=
  if sch.epochBlock1 ≤ blockNum then (blockNum - sch.epochBlock1) / sch.blocksPerEpochOld + 1
  else 0

/-- `CalcEpochNumber` (internal/configs/sharding/mainnet.go:124-141, localnet.go:61-79). -/
def calcEpochNumber (blockNum : ℕ) : ℕ :=
  if cfg.isTwoSeconds (sch.oldEpochNumber blockNum) then
    (blockNum - sch.twoSecondsFirstBlock cfg) / sch.blocksPerEpoch + cfg.twoSecondsEpoch
  else sch.oldEpochNumber blockNum

/-- `IsLastBlock` (internal/configs/sharding/mainnet.go:143-158, localnet.go:81-97). -/
def isLastBlock (blockNum : ℕ) : Bool :=
  if blockNum < sch.epochBlock1 - 1 then false
  else if blockNum = sch.epochBlock1 - 1 then true
  else if sch.twoSecondsFirstBlock cfg ≤ blockNum then
    (blockNum - sch.twoSecondsFirstBlock cfg) % sch.blocksPerEpoch = sch.blocksPerEpoch - 1
  else (blockNum - sch.epochBlock1) % sch.blocksPerEpochOld = sch.blocksPerEpochOld - 1

/-- `EpochLastBlock` (internal/configs/sharding/mainnet.go:160-173, localnet.go:99-113). -/
def epochLastBlock (epochNum : ℕ) : ℕ :=
  if epochNum = 0 then sch.epochBlock1 - 1
  else if cfg.isTwoSeconds epochNum then
    u64 (sch.twoSecondsFirstBlock cfg - 1 +
      sch.blocksPerEpoch * (epochNum - cfg.twoSecondsEpoch + 1))
  else sch.epochBlock1 - 1 + sch.blocksPerEpochOld * epochNum

/-- The schedules of the source. -/
def Shipped : Prop := sch = mainnetSchedule ∨ sch = localnetSchedule

/-- The first block after an epoch. -/
def epochEnd (e : ℕ) : ℕ :=
  if e = 0 then sch.epochBlock1
  else if cfg.twoSecondsEpoch ≤ e then
    sch.twoSecondsFirstBlock cfg + sch.blocksPerEpoch * (e + 1 - cfg.twoSecondsEpoch)
  else sch.epochBlock1 + sch.blocksPerEpochOld * e

/-- The epoch grows by one after each last block, and the last block of the epoch of `b` is the
    next one. -/
structure EpochsAgree (b : ℕ) : Prop where
  zero : sch.calcEpochNumber cfg 0 = 0
  succ : sch.calcEpochNumber cfg (b + 1) =
    sch.calcEpochNumber cfg b + (if sch.isLastBlock cfg b then 1 else 0)
  last : IsLeast {n | b ≤ n ∧ sch.isLastBlock cfg n = true}
    (sch.epochLastBlock cfg (sch.calcEpochNumber cfg b))

variable {sch : EpochSchedule} {cfg : SwitchConfig} {b e : ℕ}

theorem Shipped.constants (h : sch.Shipped) :
    sch.epochBlock1 = 344064 ∧ sch.blocksPerEpochOld = 16384 ∧ sch.blocksPerEpoch = 32768 ∨
      sch.epochBlock1 = 10 ∧ sch.blocksPerEpochOld = 5 ∧ sch.blocksPerEpoch = 10 := by
  rcases h with rfl | rfl <;> decide

section Functions

variable (hsch : sch.Shipped)
  (hT : cfg.twoSecondsEpoch ≠ 0 ∨ sch.epochBlock1 = sch.blocksPerEpoch)

include hsch

theorem epochLastBlock_eq (h : sch.epochEnd cfg e < 2 ^ 64) :
    sch.epochLastBlock cfg e + 1 = sch.epochEnd cfg e := by
  unfold epochLastBlock epochEnd at *
  simp only [cfg.isTwoSeconds_iff]
  split_ifs at h ⊢ with h0 hle
  · rcases hsch.constants with ⟨hc, -⟩ | ⟨hc, -⟩ <;> omega
  · have hexpr : (sch.twoSecondsFirstBlock cfg : ℤ) - 1 +
          sch.blocksPerEpoch * (e - cfg.twoSecondsEpoch + 1) =
        (sch.twoSecondsFirstBlock cfg +
          sch.blocksPerEpoch * (e + 1 - cfg.twoSecondsEpoch) : ℕ) - 1 := by
      push_cast [Nat.le_succ_of_le hle]
      ring
    have hpos : 0 < sch.blocksPerEpoch * (e + 1 - cfg.twoSecondsEpoch) := by
      rcases hsch.constants with ⟨-, -, hq⟩ | ⟨-, -, hq⟩ <;> rw [hq] <;> omega
    rw [hexpr, u64_pred (Nat.add_pos_right _ hpos) h]
  · rcases hsch.constants with ⟨hc, -⟩ | ⟨hc, -⟩ <;> omega

include hT

theorem numbering : Numbering (sch.calcEpochNumber cfg) (sch.epochEnd cfg) := by
  unfold calcEpochNumber oldEpochNumber epochEnd twoSecondsFirstBlock
  simp only [cfg.isTwoSeconds_iff]
  rcases hsch.constants with ⟨hc, hp, hq⟩ | ⟨hc, hp, hq⟩
  all_goals
    rw [hq] at hT
    rw [hp, hq]
    refine ⟨fun b e => ?_, strictMono_nat_of_lt_succ fun e => ?_⟩
    · split_ifs <;> omega
    · rw [if_neg (Nat.succ_ne_zero e)]
      split_ifs <;> omega

theorem isLastBlock_iff :
    sch.isLastBlock cfg b = true ↔ b + 1 = sch.epochEnd cfg (sch.calcEpochNumber cfg b) := by
  unfold isLastBlock calcEpochNumber oldEpochNumber epochEnd twoSecondsFirstBlock
  simp only [cfg.isTwoSeconds_iff]
  rcases hsch.constants with ⟨hc, hp, hq⟩ | ⟨hc, hp, hq⟩
  all_goals
    rw [hq] at hT
    rw [hp, hq]
    split_ifs <;>
      first | contradiction | (simp only [false_iff, true_iff, decide_eq_true_eq]; omega)

theorem epochsAgree_of_numbering
    (hfits : sch.epochEnd cfg (sch.calcEpochNumber cfg b) < 2 ^ 64) : sch.EpochsAgree cfg b := by
  have hnum := numbering hsch hT
  have hend := epochLastBlock_eq hsch hfits
  have hlt := hnum.lt_stop b
  have hzero : sch.calcEpochNumber cfg 0 ≤ 0 := by
    rw [hnum.le_iff, epochEnd, if_pos rfl]
    rcases hsch with rfl | rfl <;> decide
  refine ⟨Nat.le_zero.1 hzero, ?_, ⟨by omega, ?_⟩, ?_⟩
  · simp only [isLastBlock_iff hsch hT]
    exact hnum.span_succ b
  · rw [isLastBlock_iff hsch hT, hend, hnum.span_of_stop hend]
  · rintro n ⟨hbn, hn⟩
    have hle := hnum.stop_le hbn ((isLastBlock_iff hsch hT).1 hn)
    omega

end Functions

/-! ## Mainnet with the switch in epoch 0 -/

section Zero

variable (hT : cfg.twoSecondsEpoch = 0)

include hT

theorem mainnet_calcEpochNumber : mainnetSchedule.calcEpochNumber cfg b = b / 32768 := by
  have htwo : ∀ e, cfg.isTwoSeconds e = true := fun e =>
    (cfg.isTwoSeconds_iff e).2 (hT ▸ Nat.zero_le e)
  rw [calcEpochNumber, if_pos (htwo _), twoSecondsFirstBlock, if_pos hT, hT]
  rfl

theorem mainnet_isLastBlock_iff : mainnetSchedule.isLastBlock cfg b = true ↔
    b = 344063 ∨ 344064 ≤ b ∧ b % 32768 = 32767 := by
  have hfirst : mainnetSchedule.twoSecondsFirstBlock cfg = 0 := if_pos hT
  have hone : mainnetSchedule.epochBlock1 = 344064 := rfl
  have hper : mainnetSchedule.blocksPerEpoch = 32768 := rfl
  rw [isLastBlock, hfirst, hone, hper, if_pos (Nat.zero_le b)]
  split_ifs <;> simp only [false_iff, true_iff, decide_eq_true_eq] <;> omega

theorem mainnet_epochLastBlock (h : 32768 * (e + 1) < 2 ^ 64) :
    mainnetSchedule.epochLastBlock cfg e = if e = 0 then 344063 else 32768 * (e + 1) - 1 := by
  have htwo : cfg.isTwoSeconds e = true := (cfg.isTwoSeconds_iff e).2 (hT ▸ Nat.zero_le e)
  rw [epochLastBlock, if_pos htwo, twoSecondsFirstBlock, if_pos hT, hT]
  simp only [mainnetSchedule, u64]
  split_ifs <;> omega

/-- The functions differ from the end of the short first epoch to that of the long one. -/
theorem mainnet_epochsAgree_iff (hb : 32768 * (b / 32768 + 1) < 2 ^ 64) :
    mainnetSchedule.EpochsAgree cfg b ↔ b + 1 < 32768 ∨ 344064 ≤ b := by
  have hlast := mainnet_epochLastBlock hT hb
  constructor
  · rintro ⟨-, hsucc, ⟨-, hmem⟩, hleast⟩
    by_contra hout
    -- the long epoch ends at 344063, which the last block of another epoch is not
    have hlong := hleast ⟨show b ≤ 344063 by omega, (mainnet_isLastBlock_iff hT).2 (Or.inl rfl)⟩
    rw [mainnet_calcEpochNumber hT, hlast] at hmem hlong
    rw [mainnet_isLastBlock_iff hT] at hmem
    simp only [mainnet_calcEpochNumber hT, mainnet_isLastBlock_iff hT] at hsucc
    split_ifs at hsucc hmem hlong <;> omega
  · intro hin
    refine ⟨by rw [mainnet_calcEpochNumber hT], ?_, ?_⟩
    · simp only [mainnet_calcEpochNumber hT, mainnet_isLastBlock_iff hT]
      split_ifs <;> omega
    · rw [mainnet_calcEpochNumber hT, hlast]
      simp only [mainnet_isLastBlock_iff hT]
      refine ⟨⟨?_, ?_⟩, ?_⟩
      · split_ifs <;> omega
      · split_ifs <;> omega
      · rintro n ⟨hbn, hn⟩
        split_ifs <;> omega

end Zero

/-- **The epoch functions of mainnet and localnet agree** at a block exactly if the switch is not in
    epoch 0, or the schedule is that of localnet, or the block is before the end of the short first
    epoch or after the long one. -/
theorem epochs_agree_iff (hsch : sch.Shipped)
    (hfits : sch.epochEnd cfg (sch.calcEpochNumber cfg b) < 2 ^ 64) :
    sch.EpochsAgree cfg b ↔ cfg.twoSecondsEpoch ≠ 0 ∨ sch = localnetSchedule ∨
      b + 1 < sch.blocksPerEpoch ∨ sch.epochBlock1 ≤ b := by
  by_cases hT : cfg.twoSecondsEpoch = 0
  · rcases hsch with rfl | rfl
    · have hb : 32768 * (b / 32768 + 1) < 2 ^ 64 := by
        rw [mainnet_calcEpochNumber hT, epochEnd, twoSecondsFirstBlock, if_pos hT, hT] at hfits
        have hper : mainnetSchedule.blocksPerEpoch = 32768 := rfl
        rw [hper, if_pos (Nat.zero_le _)] at hfits
        split_ifs at hfits with hzero
        · rw [hzero]
          decide
        · simpa using hfits
      have hne : mainnetSchedule ≠ localnetSchedule := fun h =>
        absurd (congrArg epochBlock1 h) (by decide +kernel)
      rw [mainnet_epochsAgree_iff hT hb, or_iff_right (not_not.2 hT), or_iff_right hne]
      rfl
    · exact iff_of_true (epochsAgree_of_numbering (Or.inr rfl) (Or.inr rfl) hfits)
        (Or.inr (Or.inl rfl))
  · exact iff_of_true (epochsAgree_of_numbering hsch (Or.inl hT) hfits) (Or.inl hT)

end EpochSchedule

/-! ## Testnet -/

namespace TestnetSchedule

/-- `BlocksPerEpochOld` (internal/configs/sharding/testnet.go:18-19, 49-51). -/
def blocksPerEpochOld : ℕ := 38

/-- `BlocksPerEpoch` (internal/configs/sharding/testnet.go:21-22, 53-55). -/
def blocksPerEpoch : ℕ := 8192

variable (cfg : SwitchConfig)

/-- `CalcEpochNumber` (internal/configs/sharding/testnet.go:57-68). -/
def calcEpochNumber (blockNum : ℕ) : ℕ :=
  let firstBlock2s := cfg.twoSecondsEpoch * blocksPerEpochOld
  if firstBlock2s ≤ blockNum then
    (blockNum - firstBlock2s) / blocksPerEpoch + cfg.twoSecondsEpoch
  else blockNum / blocksPerEpochOld

/-- `IsLastBlock` (internal/configs/sharding/testnet.go:70-79). -/
def isLastBlock (blockNum : ℕ) : Bool :=
  let firstBlock2s := cfg.twoSecondsEpoch * blocksPerEpochOld
  if firstBlock2s ≤ blockNum then
    (blockNum - firstBlock2s) % blocksPerEpoch = blocksPerEpoch - 1
  else (blockNum + 1) % blocksPerEpochOld = 0

/-- `EpochLastBlock` (internal/configs/sharding/testnet.go:81-91). -/
def epochLastBlock (epochNum : ℕ) : ℕ :=
  let firstBlock2s := cfg.twoSecondsEpoch * blocksPerEpochOld
  if cfg.isTwoSeconds epochNum then
    u64 (firstBlock2s - 1 + blocksPerEpoch * (epochNum - cfg.twoSecondsEpoch + 1))
  else blocksPerEpochOld * (epochNum + 1) - 1

/-- The first block after an epoch. -/
def epochEnd (e : ℕ) : ℕ :=
  if cfg.twoSecondsEpoch ≤ e then
    cfg.twoSecondsEpoch * 38 + 8192 * (e + 1 - cfg.twoSecondsEpoch)
  else 38 * (e + 1)

variable {cfg : SwitchConfig} {b e : ℕ}

theorem epochLastBlock_eq (h : epochEnd cfg e < 2 ^ 64) :
    epochLastBlock cfg e + 1 = epochEnd cfg e := by
  unfold epochLastBlock epochEnd blocksPerEpochOld blocksPerEpoch u64 at *
  simp only [cfg.isTwoSeconds_iff]
  split_ifs at h ⊢ <;> omega

theorem numbering (cfg : SwitchConfig) : Numbering (calcEpochNumber cfg) (epochEnd cfg) := by
  unfold calcEpochNumber epochEnd blocksPerEpochOld blocksPerEpoch
  dsimp only
  refine ⟨fun b e => ?_, strictMono_nat_of_lt_succ fun e => ?_⟩ <;> split_ifs <;> omega

theorem isLastBlock_iff :
    isLastBlock cfg b = true ↔ b + 1 = epochEnd cfg (calcEpochNumber cfg b) := by
  unfold isLastBlock calcEpochNumber epochEnd blocksPerEpochOld blocksPerEpoch
  dsimp only
  split_ifs <;> simp only [decide_eq_true_eq] <;> omega

/-- **The epoch functions of testnet agree** for every switch epoch. -/
theorem testnet_epochs_agree (cfg : SwitchConfig) (b : ℕ) :
    calcEpochNumber cfg (b + 1) = calcEpochNumber cfg b + (if isLastBlock cfg b then 1 else 0) ∧
    (∀ e e', e < e' → epochEnd cfg e' < 2 ^ 64 → epochLastBlock cfg e < epochLastBlock cfg e') ∧
    (∀ e, epochEnd cfg e < 2 ^ 64 → calcEpochNumber cfg (epochLastBlock cfg e) = e) ∧
    (b + 1 < 2 ^ 64 →
      (isLastBlock cfg b = true ↔ ∃ e, epochEnd cfg e < 2 ^ 64 ∧ epochLastBlock cfg e = b)) := by
  have hnum := numbering cfg
  refine ⟨?_, fun e e' hlt hfits => ?_, fun e hfits => ?_, fun hb => ?_⟩
  · rw [hnum.span_succ]
    simp only [isLastBlock_iff]
  · have hlt' := hnum.strictMono hlt
    have hend := epochLastBlock_eq hfits
    have hend' := epochLastBlock_eq (hlt'.trans hfits)
    omega
  · exact hnum.span_of_stop (epochLastBlock_eq hfits)
  · rw [isLastBlock_iff]
    constructor
    · intro hstop
      have hfits := hstop ▸ hb
      exact ⟨_, hfits, Nat.succ_injective ((epochLastBlock_eq hfits).trans hstop.symm)⟩
    · rintro ⟨e, hfits, rfl⟩
      have hend := epochLastBlock_eq hfits
      rw [hend, hnum.span_of_stop hend]

end TestnetSchedule

namespace Concrete

/-- A switch in epoch 0. -/
def switchAtZero : SwitchConfig := ⟨0, fun _ => true, by simp, by decide⟩

/-- On mainnet with the switch in epoch 0 the epoch changes after block 32767, which is not a last
    block. -/
theorem mainnet_switch_at_zero :
    mainnetSchedule.calcEpochNumber switchAtZero (32767 + 1) =
        mainnetSchedule.calcEpochNumber switchAtZero 32767 + 1 ∧
      mainnetSchedule.isLastBlock switchAtZero 32767 = false ∧
      ¬ mainnetSchedule.EpochsAgree switchAtZero 32767 := by
  have hsucc : mainnetSchedule.calcEpochNumber switchAtZero (32767 + 1) =
      mainnetSchedule.calcEpochNumber switchAtZero 32767 + 1 := by decide +kernel
  have hlast : mainnetSchedule.isLastBlock switchAtZero 32767 = false := by decide +kernel
  refine ⟨hsucc, hlast, fun h => ?_⟩
  have hagree := h.succ
  rw [hsucc, hlast] at hagree
  simp at hagree

/-- After the long epoch the functions agree again. -/
theorem mainnet_agrees_later : mainnetSchedule.EpochsAgree switchAtZero 400000 :=
  (EpochSchedule.epochs_agree_iff (Or.inl rfl) (by decide +kernel)).2
    (Or.inr (Or.inr (Or.inr (by decide))))

end Concrete

end Benzene
