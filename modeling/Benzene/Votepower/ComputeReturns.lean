import Benzene.Votepower.PowerSum

/-!
# What `Compute` returns

`Compute` divides by the stake of all slots and by the share of the internal nodes, and both may be
zero.  No other division has a zero, the shares are between zero and one, and their sums are far
from the limit of the decimals.

`compute_cases`: for stakes that are not negative, `Compute` panics because the total stake is too
long, or because of a zero, or returns a roster.  It never returns the error of its last check.
-/

namespace Benzene

/-- The part of the group and the voting power are between zero and one. -/
def Share.InUnit (s : Share) : Prop :=
  (0 ≤ s.group ∧ s.group ≤ Dec.one) ∧ 0 ≤ s.power ∧ s.power ≤ Dec.one

namespace Votepower

variable {N : Numeric} {Account : Type} {i : Instance N Account} {slots : List Slot} {slot : Slot}

/-! ## Stakes -/

/-- A slot is staked or internal. -/
theorem slot_cases (slot : Slot) :
    (∃ e, slot.effectiveStake = some e ∧ slot.isStaked = true ∧ slot.stake = e.raw) ∨
      slot.effectiveStake = none ∧ slot.isStaked = false ∧ slot.stake = 0 := by
  cases hstake : slot.effectiveStake <;> simp [Slot.isStaked, Slot.stake, hstake]

theorem internalCount_pos (hslot : slot ∈ slots) (hinternal : slot.isStaked = false) :
    0 < internalCount slots :=
  List.countP_pos_iff.2 ⟨slot, hslot, by simp [hinternal]⟩

theorem tallyStake_eq {total count : ℤ} (hfits : N.Fits total) (slot : Slot) :
    tallyStake N (⟨total⟩, count) slot =
      (Dec.checked N.limit (total + slot.stake)).map (·, count + (internalCount [slot] : ℤ)) := by
  rcases slot_cases slot with ⟨e, hstake, hstaked, he⟩ | ⟨hstake, hinternal, he⟩
  · simp [tallyStake, hstake, he, N.add_eq, internalCount, hstaked]
  · simp [tallyStake, hstake, he, Numeric.checked_of_fits hfits, internalCount, hinternal,
      Except.map]

section Stakes

variable (hnonneg : ∀ slot ∈ slots, 0 ≤ slot.stake)

include hnonneg

theorem stakes_nonneg : ∀ n ∈ slots.map Slot.stake, 0 ≤ n := by
  intro n hn
  obtain ⟨s, hs, rfl⟩ := List.mem_map.1 hn
  exact hnonneg s hs

theorem stake_le_totalStake (hslot : slot ∈ slots) : slot.stake ≤ totalStake slots :=
  List.single_le_sum (stakes_nonneg hnonneg) _ (List.mem_map_of_mem hslot)

theorem totalStake_nonneg : 0 ≤ totalStake slots := List.sum_nonneg (stakes_nonneg hnonneg)

/-- The loop over the stakes, from a total that it has so far. -/
theorem tallyStakes_loop {total count : ℤ} (htotal : 0 ≤ total) (hfits : N.Fits total) :
    slots.foldlM (tallyStake N) (⟨total⟩, count) =
      (Dec.checked N.limit (total + totalStake slots)).map
        (·, count + (internalCount slots : ℤ)) := by
  induction slots generalizing total count with
  | nil => simp [totalStake, internalCount, Numeric.checked_of_fits hfits, pure, Except.pure,
      Except.map]
  | cons slot slots ih =>
    have hslot := hnonneg slot List.mem_cons_self
    have hrest : ∀ s ∈ slots, 0 ≤ s.stake := fun s hs => hnonneg s (List.mem_cons_of_mem _ hs)
    have hsum : totalStake (slot :: slots) = slot.stake + totalStake slots := rfl
    have hcount : internalCount (slot :: slots) = internalCount [slot] + internalCount slots := by
      simp [internalCount, List.countP_cons, add_comm]
    rw [List.foldlM_cons, tallyStake_eq hfits, hsum, hcount, Nat.cast_add, ← add_assoc, ← add_assoc]
    by_cases hsmall : N.Fits (total + slot.stake)
    · rw [Numeric.checked_of_fits hsmall]
      exact ih hrest (by omega) hsmall
    · have hbig : ¬ N.Fits (total + slot.stake + totalStake slots) := by
        have hnn := totalStake_nonneg hrest
        exact fun hfit => hsmall (hfit.of_le (by omega) (by omega))
      rw [Numeric.checked_of_not_fits hsmall, Numeric.checked_of_not_fits hbig]
      rfl

theorem tallyStakes_eq : tallyStakes N slots =
    (Dec.checked N.limit (totalStake slots)).map (·, (internalCount slots : ℤ)) := by
  have hzero : N.Fits 0 := Numeric.fits_of_unit ⟨le_rfl, Dec.one_pos.le⟩
  have hloop := @tallyStakes_loop N slots hnonneg 0 0 le_rfl hzero
  rw [zero_add, zero_add] at hloop
  exact hloop

end Stakes

/-! ## Shares -/

/-- A share of a slot is divided by zero. -/
def DividesByZero (i : Instance N Account) (slots : List Slot) (slot : Slot) : Prop :=
  if slot.isStaked then totalStake slots = 0 else i.harmonyVotePercent.raw = 0

instance (i : Instance N Account) (slots : List Slot) (slot : Slot) :
    Decidable (DividesByZero i slots slot) :=
  inferInstanceAs (Decidable (ite _ _ _))

/-- A part of a total. -/
theorem quoRaw_unit {a b : ℤ} (ha : 0 ≤ a) (hle : a ≤ b) (hb : b ≠ 0) :
    0 ≤ N.quoRaw a b ∧ N.quoRaw a b ≤ Dec.one := by
  have hpos : 0 < b := lt_of_le_of_ne (ha.trans hle) hb.symm
  refine ⟨Numeric.quoRaw_nonneg ha hpos, Numeric.quoRaw_le ha hpos ?_⟩
  rw [mul_comm]
  exact mul_le_mul_of_nonneg_left hle Dec.one_pos.le

/-- The part of one of the internal slots. -/
theorem internalPower_bounds (i : Instance N Account) {n : ℕ} (hn : 0 < n) :
    0 ≤ N.quoRaw i.harmonyVotePercent.raw (Dec.newDec n).raw ∧
      N.quoRaw i.harmonyVotePercent.raw (Dec.newDec n).raw ≤ i.harmonyVotePercent.raw := by
  have hpos : (0 : ℤ) < n := by exact_mod_cast hn
  have hcount : 0 < (Dec.newDec n).raw := mul_pos hpos Dec.one_pos
  refine ⟨Numeric.quoRaw_nonneg i.harmony_nonneg hcount,
    Numeric.quoRaw_le i.harmony_nonneg hcount ?_⟩
  refine mul_le_mul_of_nonneg_left ?_ i.harmony_nonneg
  exact le_mul_of_one_le_left Dec.one_pos.le (by exact_mod_cast hn)

/-- The shares of a slot are between zero and one. -/
theorem share_inUnit (hnonneg : ∀ slot ∈ slots, 0 ≤ slot.stake) (hslot : slot ∈ slots)
    (hzero : ¬ DividesByZero i slots slot) : ((shares i slots).share slot).InUnit := by
  simp only [DividesByZero] at hzero
  simp only [Share.InUnit, Shares.share, Shares.group, Shares.power]
  rcases slot_cases slot with ⟨e, hstake, hstaked, he⟩ | ⟨hstake, hinternal, -⟩
  · simp only [hstake, ← he]
    rw [if_pos hstaked] at hzero
    have hpart :=
      quoRaw_unit (N := N) (hnonneg slot hslot) (stake_le_totalStake hnonneg hslot) hzero
    refine ⟨hpart, Numeric.mulRaw_nonneg hpart.1 i.external_nonneg,
      Numeric.mulRaw_le hpart.1 i.external_nonneg ?_⟩
    exact mul_le_mul hpart.2 i.external_le_one i.external_nonneg Dec.one_pos.le
  · simp only [hstake]
    rw [if_neg (by simp [hinternal])] at hzero
    have hbounds := internalPower_bounds i (internalCount_pos hslot hinternal)
    exact ⟨quoRaw_unit hbounds.1 hbounds.2 hzero, hbounds.1, hbounds.2.trans i.harmony_le_one⟩

/-! ## Panics -/

theorem vote_cases (hnonneg : ∀ slot ∈ slots, 0 ≤ slot.stake)
    (hfits : N.Fits (totalStake slots)) (hslot : slot ∈ slots) :
    DividesByZero i slots slot ∧ (shares i slots).vote slot = .error .divisionByZero ∨
      ¬ DividesByZero i slots slot ∧ ∃ v, (shares i slots).vote slot = .ok v := by
  have hunit := fun hzero => share_inUnit (i := i) hnonneg hslot hzero
  rcases slot_cases slot with ⟨e, hstake, hstaked, he⟩ | ⟨hstake, hinternal, -⟩
  · have hadd : N.add Dec.zeroDec e = .ok e := by
      have hraw : Dec.zeroDec.raw + e.raw = slot.stake := (zero_add _).trans he.symm
      rw [N.add_eq, hraw, Numeric.checked_of_fits (hfits.of_le (hnonneg slot hslot)
        (stake_le_totalStake hnonneg hslot)), he]
    simp only [Share.InUnit, Shares.share, Shares.group, Shares.power, hstake] at hunit
    simp only [Shares.vote, hstake, hadd]
    by_cases hzero : DividesByZero i slots slot
    · have htotal : (shares i slots).totalEffectiveStake.raw = 0 := by
        rwa [DividesByZero, if_pos hstaked] at hzero
      exact Or.inl ⟨hzero, by simp only [N.quo_zero _ _ htotal, bind, Except.bind]⟩
    · have htotal : (shares i slots).totalEffectiveStake.raw ≠ 0 := by
        rwa [DividesByZero, if_pos hstaked] at hzero
      obtain ⟨hgroup, hpower⟩ := hunit hzero
      exact Or.inr ⟨hzero, _, by
        simp only [N.quo_eq _ _ htotal, N.mul_eq,
          Numeric.checked_of_fits (Numeric.fits_of_unit hgroup),
          Numeric.checked_of_fits (Numeric.fits_of_unit hpower), bind, Except.bind]
        rfl⟩
  · have hpos := internalCount_pos hslot hinternal
    have hcount : (shares i slots).asDecHMYSlotCount.raw ≠ 0 :=
      (mul_pos (by exact_mod_cast hpos) Dec.one_pos).ne'
    have hbounds := internalPower_bounds i hpos
    have hquo : N.quo (shares i slots).harmonyPercent (shares i slots).asDecHMYSlotCount =
        .ok ⟨N.quoRaw (shares i slots).harmonyPercent.raw
          (shares i slots).asDecHMYSlotCount.raw⟩ :=
      (N.quo_eq _ _ hcount).trans (Numeric.checked_of_fits
        (Numeric.fits_of_unit ⟨hbounds.1, hbounds.2.trans i.harmony_le_one⟩))
    simp only [Share.InUnit, Shares.share, Shares.group, Shares.power, hstake] at hunit
    simp only [Shares.vote, hstake, hquo]
    by_cases hzero : DividesByZero i slots slot
    · have hshare : (shares i slots).harmonyPercent.raw = 0 := by
        rwa [DividesByZero, if_neg (by simp [hinternal])] at hzero
      exact Or.inl ⟨hzero, by simp only [N.quo_zero _ _ hshare, bind, Except.bind]⟩
    · have hshare : (shares i slots).harmonyPercent.raw ≠ 0 := by
        rwa [DividesByZero, if_neg (by simp [hinternal])] at hzero
      exact Or.inr ⟨hzero, _, by
        simp only [N.quo_eq _ _ hshare,
          Numeric.checked_of_fits (Numeric.fits_of_unit (hunit hzero).1), bind, Except.bind]
        rfl⟩

/-- The power of some shares is at most one for each. -/
theorem overall_bounds {l : List Share} (h : ∀ s ∈ l, s.InUnit) :
    0 ≤ overall l ∧ overall l ≤ l.length * Dec.one := by
  induction l with
  | nil => exact ⟨le_rfl, by simp [overall]⟩
  | cons s l ih =>
    have hs := (h s List.mem_cons_self).2
    have hrest := ih fun s' hs' => h s' (List.mem_cons_of_mem _ hs')
    have hlen : ((s :: l).length : ℤ) * Dec.one = Dec.one + l.length * Dec.one := by
      rw [List.length_cons]
      push_cast
      ring
    rw [overall_cons, hlen]
    omega

/-- The loop has gone through slots that do not divide by zero. -/
structure Entered (i : Instance N Account) (slots done : List Slot) (t : Tally) : Prop where
  tallied : Tallied done (done.map (shares i slots).share) t
  nonzero : ∀ slot ∈ done, ¬ DividesByZero i slots slot

section Loop

variable {t t' : Tally} {done : List Slot} (hnonneg : ∀ slot ∈ slots, 0 ≤ slot.stake)

include hnonneg

theorem shares_inUnit (hsub : done ⊆ slots) (hzero : ∀ slot ∈ done, ¬ DividesByZero i slots slot) :
    ∀ s ∈ done.map (shares i slots).share, s.InUnit := by
  intro s hs
  obtain ⟨slot, hslot, rfl⟩ := List.mem_map.1 hs
  exact share_inUnit hnonneg (hsub hslot) (hzero slot hslot)

/-- The totals of the loop stay far below the limit. -/
theorem Entered.totals (h : Entered i slots done t) (hsub : done ⊆ slots)
    (hlen : done.length < 2 ^ 63) :
    (0 ≤ t.ourPercentage.raw ∧ 0 ≤ t.theirPercentage.raw) ∧
      t.ourPercentage.raw + t.theirPercentage.raw ≤ 2 ^ 63 * Dec.one := by
  have hunit := shares_inUnit hnonneg hsub h.nonzero
  have hin : 0 ≤ overall (internal (done.map (shares i slots).share)) :=
    (overall_bounds fun s hs => hunit s (List.mem_of_mem_filter hs)).1
  have hex : 0 ≤ overall (external (done.map (shares i slots).share)) :=
    (overall_bounds fun s hs => hunit s (List.mem_of_mem_filter hs)).1
  have hall := (overall_bounds hunit).2
  rw [h.tallied.our, h.tallied.their, ← overall_split]
  refine ⟨⟨hin, hex⟩, hall.trans ?_⟩
  refine mul_le_mul_of_nonneg_right ?_ Dec.one_pos.le
  rw [List.length_map]
  exact_mod_cast hlen.le

/-- One slot of the loop returns, or divides by zero. -/
theorem Entered.enter_cases {rest : List Slot} (h : Entered i slots done t)
    (heq : done ++ slot :: rest = slots) (hlen : slots.length < 2 ^ 63)
    (hfits : N.Fits (totalStake slots)) :
    DividesByZero i slots slot ∧ (shares i slots).enter t slot = .error .divisionByZero ∨
      ¬ DividesByZero i slots slot ∧ ∃ t', (shares i slots).enter t slot = .ok t' ∧
        Entered i slots (done ++ [slot]) t' := by
  have hmem : slot ∈ slots := heq ▸ List.mem_append_right done List.mem_cons_self
  have hsub : done ⊆ slots := heq ▸ List.subset_append_left done (slot :: rest)
  have hlen' : done.length < 2 ^ 63 := by
    rw [← heq, List.length_append] at hlen
    omega
  rcases vote_cases hnonneg hfits hmem (i := i) with ⟨hzero, hvote⟩ | ⟨hzero, v, hvote⟩
  · left
    refine ⟨hzero, ?_⟩
    rw [Shares.enter, hvote]
    rfl
  · right
    refine ⟨hzero, ?_⟩
    obtain ⟨⟨hour, htheir⟩, hsum⟩ := h.totals hnonneg hsub hlen'
    have hpower := (share_inUnit hnonneg hmem hzero).2
    rw [← Shares.share_of_vote hvote] at hpower
    change 0 ≤ v.overallPercent.raw ∧ v.overallPercent.raw ≤ Dec.one at hpower
    have hone := Dec.one_pos
    have hret : ∃ t', (shares i slots).enter t slot = .ok t' := by
      rw [Shares.enter, hvote]
      cases hstake : slot.effectiveStake with
      | some e =>
        have hadd : N.add t.theirPercentage v.overallPercent = .ok _ :=
          Numeric.add_of_fits (Numeric.fits_of_bound (by omega) (by omega))
        simp only [bind, Except.bind, hadd]
        exact ⟨_, rfl⟩
      | none =>
        have hadd : N.add t.ourPercentage v.overallPercent = .ok _ :=
          Numeric.add_of_fits (Numeric.fits_of_bound (by omega) (by omega))
        simp only [bind, Except.bind, hadd]
        exact ⟨_, rfl⟩
    obtain ⟨t', ht'⟩ := hret
    refine ⟨t', ht', h.tallied.enter ht', fun s hs => ?_⟩
    rcases List.mem_append.1 hs with hs | hs
    · exact h.nonzero s hs
    · exact List.mem_singleton.1 hs ▸ hzero

/-- What is missing to one can be given. -/
theorem Entered.giveDiff_returns (h : Entered i slots slots t)
    (hlen : slots.length < 2 ^ 63) : ∃ t', t.giveDiff N = .ok t' := by
  obtain ⟨⟨hour, htheir⟩, hsum⟩ := h.totals hnonneg (List.Subset.refl _) hlen
  have hone := Dec.one_pos
  have hadd : N.add t.ourPercentage t.theirPercentage =
      .ok ⟨t.ourPercentage.raw + t.theirPercentage.raw⟩ :=
    Numeric.add_of_fits (Numeric.fits_of_bound (by omega) (by omega))
  have hdiff : t.diff = Dec.one - (t.ourPercentage.raw + t.theirPercentage.raw) := rfl
  have hfits : N.Fits t.diff := Numeric.fits_of_bound (by omega) (by omega)
  have hsub : N.sub Dec.oneDec ⟨t.ourPercentage.raw + t.theirPercentage.raw⟩ = .ok ⟨t.diff⟩ :=
    (N.sub_eq _ _).trans (Numeric.checked_of_fits hfits)
  rw [Tally.giveDiff, hadd]
  simp only [bind, Except.bind, hsub]
  cases hlast : t.lastStakedVoter with
  | none => exact ⟨t, rfl⟩
  | some n =>
    dsimp only
    split_ifs
    · exact ⟨t, rfl⟩
    · cases hget : t.members[n]? with
      | none => exact ⟨t, rfl⟩
      | some last =>
        have hunit : last.share.InUnit := by
          refine shares_inUnit hnonneg (List.Subset.refl _) h.nonzero _ ?_
          rw [← h.tallied.members]
          exact List.mem_map_of_mem (List.mem_of_getElem? hget)
        have hpower : 0 ≤ last.overallPercent.raw ∧ last.overallPercent.raw ≤ Dec.one := hunit.2
        have hgive : N.add last.overallPercent ⟨t.diff⟩ = .ok _ :=
          Numeric.add_of_fits (Numeric.fits_of_bound (by dsimp only; omega) (by dsimp only; omega))
        have htheirs : N.add t.theirPercentage ⟨t.diff⟩ = .ok _ :=
          Numeric.add_of_fits (Numeric.fits_of_bound (by dsimp only; omega) (by dsimp only; omega))
        simp only [hgive, htheirs]
        exact ⟨_, rfl⟩

/-- The check at the end never fails. -/
theorem Entered.settle_returns (h : Entered i slots slots t)
    (hlen : slots.length < 2 ^ 63) : ∃ t', t.settle N = .ok (.ok t') := by
  obtain ⟨t', hgive⟩ := h.giveDiff_returns hnonneg hlen
  have hs := h.tallied.giveDiff hgive
  refine ⟨t', ?_⟩
  rw [Tally.settle, hgive]
  simp only [bind, Except.bind]
  have hlast := hs.last
  generalize t'.lastStakedVoter = last at hlast
  cases hlast with
  | none => rfl
  | some hslot =>
    have hone : t'.ourPercentage.raw + t'.theirPercentage.raw = Dec.one := by
      rw [hs.our, hs.their, ← overall_split, Shares.overall_allot hslot]
    have hadd : N.add t'.ourPercentage t'.theirPercentage = .ok Dec.oneDec := by
      rw [N.add_eq, hone]
      exact Numeric.checked_of_fits (Numeric.fits_of_unit ⟨Dec.one_pos.le, le_rfl⟩)
    simp only [hadd]
    rfl

end Loop

/-- `Compute` for stakes that are not negative, outside the recovery. -/
theorem compute_cases {schedule : ℤ → Instance N Account} {network : NetworkType}
    {subComm : ShardCommittee} {epoch : ℤ} (hout : inRecovery network epoch = false)
    (hnonneg : ∀ slot ∈ subComm.slots, 0 ≤ slot.stake) :
    ¬ N.Fits (totalStake subComm.slots) ∧
        compute schedule network subComm (some epoch) = .error .overflow ∨
      N.Fits (totalStake subComm.slots) ∧
        ((∃ slot ∈ subComm.slots, DividesByZero (schedule epoch) subComm.slots slot) ∧
            compute schedule network subComm (some epoch) = .error .divisionByZero ∨
          (∀ slot ∈ subComm.slots, ¬ DividesByZero (schedule epoch) subComm.slots slot) ∧
            ∃ r, compute schedule network subComm (some epoch) = .ok (.ok r)) := by
  have hstakes := tallyStakes_eq (N := N) hnonneg
  by_cases hfits : N.Fits (totalStake subComm.slots)
  · right
    refine ⟨hfits, ?_⟩
    rw [Numeric.checked_of_fits hfits] at hstakes
    have hloop := Run.foldlM_cases (Entered (schedule epoch) subComm.slots)
      (DividesByZero (schedule epoch) subComm.slots) Dec.Panic.divisionByZero
      ⟨tallied_start, by simp⟩
      (fun heq h => h.enter_cases hnonneg heq subComm.length_lt hfits)
    have hcompute : compute schedule network subComm (some epoch) =
        (subComm.slots.foldlM (shares (schedule epoch) subComm.slots).enter Tally.start >>= fun t =>
          t.finish N (inRecovery network epoch) >>= fun settled =>
            pure (settled.map (Tally.roster subComm.shardID
              (⟨totalStake subComm.slots⟩, internalCount subComm.slots)))) := by
      simp only [compute, hstakes, percentages_eq hout]
      rfl
    rcases hloop with ⟨hzero, herr⟩ | ⟨hnone, t, ht, hentered⟩
    · left
      refine ⟨hzero, ?_⟩
      rw [hcompute, herr]
      rfl
    · right
      obtain ⟨t', hsettle⟩ := hentered.settle_returns hnonneg subComm.length_lt
      have hfinish : t.finish N (inRecovery network epoch) = .ok (.ok t') := by
        rw [hout]
        exact hsettle
      refine ⟨hnone, t'.roster subComm.shardID
        (⟨totalStake subComm.slots⟩, internalCount subComm.slots), ?_⟩
      rw [hcompute, ht]
      simp only [bind, Except.bind, hfinish]
      rfl
  · left
    refine ⟨hfits, ?_⟩
    rw [Numeric.checked_of_not_fits hfits] at hstakes
    simp only [compute, hstakes]
    rfl

end Votepower

end Benzene
