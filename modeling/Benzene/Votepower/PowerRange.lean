import Benzene.Votepower.ComputeReturns

/-!
# The range of voting power

The last staked slot gets what is missing to one, which is negative when the rounded shares add up
to more.  So its voting power is negative when the other slots have more than one together.

* `power_sum_le`: all the shares add up to at most one and a unit for every slot.
* `inRange_iff`: when all the power is between zero and one; it is if the last staked slot has at
  least a unit for every slot.
-/

namespace Benzene

namespace Votepower

/-- `Compute` does not divide by zero, and the voters it returns are in the range. -/
def InRange (result : Except Dec.Panic (Except RosterError Roster)) : Prop :=
  result ≠ .error .divisionByZero ∧ ∀ r, result = .ok (.ok r) → ∀ v ∈ r.votes, v.share.InUnit

variable {N : Numeric} {p : Shares N} {slots before before' after after' : List Slot}
  {slot slot' : Slot}

/-- If the last staked slot is a voter, the other slots have at most one together. -/
def RestFits (p : Shares N) (slots : List Slot) : Prop :=
  ∀ before slot after, LastSlot slots before slot after →
    slot.blsPublicKey ∉ before.map Slot.blsPublicKey → p.totalPower (before ++ after) ≤ Dec.one

/-! ## The last staked slot -/

theorem LastSlot.mem (h : LastSlot slots before slot after) : slot ∈ slots :=
  h.eq ▸ List.mem_append_right before List.mem_cons_self

theorem LastSlot.subset (h : LastSlot slots before slot after) : before ++ after ⊆ slots := by
  rw [h.eq]
  exact List.append_subset.2 ⟨List.subset_append_left before _,
    List.Subset.trans (List.subset_cons_self slot after) (List.subset_append_right before _)⟩

/-- No staked slot comes after the last one. -/
theorem LastSlot.eq_nil {l : List Slot} (h : LastSlot slots before slot after)
    (h' : LastSlot slots (before ++ l) slot' after') : l = [] := by
  have heq := h.eq.symm.trans h'.eq
  rw [List.append_assoc, List.append_cancel_left_eq] at heq
  cases l with
  | nil => rfl
  | cons s l =>
    have hmem : slot' ∈ after := (List.cons.inj heq).2 ▸ List.mem_append_right l List.mem_cons_self
    exact absurd h'.staked (by simp [h.internal slot' hmem])

theorem LastSlot.unique (h : LastSlot slots before slot after)
    (h' : LastSlot slots before' slot' after') :
    before' = before ∧ slot' = slot ∧ after' = after := by
  rcases List.append_eq_append_iff.1 (h'.eq.symm.trans h.eq) with ⟨l, rfl, hrest⟩ | ⟨l, rfl, hrest⟩
  · obtain rfl := h'.eq_nil h
    simpa using hrest
  · obtain rfl := h.eq_nil h'
    simpa [eq_comm] using hrest

/-! ## Sums of shares -/

section Sum

variable {Account : Type} {i : Instance N Account}

/-- A staked slot has at most a unit more than its part of the external share. -/
theorem power_staked_le (hstaked : slot.isStaked = true) (hnonneg : 0 ≤ slot.stake)
    (hpos : 0 < totalStake slots) :
    totalStake slots * (shares i slots).power slot ≤
      i.externalVotePercent.raw * slot.stake + totalStake slots := by
  have hpower : (shares i slots).power slot = N.mulRaw (N.quoRaw slot.stake (totalStake slots))
      i.externalVotePercent.raw := by
    rcases slot_cases slot with ⟨e, hstake, -, he⟩ | ⟨-, hinternal, -⟩
    · simp only [Shares.power, hstake, he]
      rfl
    · simp [hstaked] at hinternal
  have hquo := N.quoRaw_le_half _ _ hnonneg hpos
  have hmul := N.mulRaw_le_half _ _ (N.quoRaw_nonneg hnonneg hpos) i.external_nonneg
  rw [hpower]
  generalize N.quoRaw slot.stake (totalStake slots) = g at hquo hmul ⊢
  generalize N.mulRaw g i.externalVotePercent.raw = w at hmul ⊢
  have hext := i.external_nonneg
  have hone := i.external_le_one
  generalize i.externalVotePercent.raw = ext at hmul hext hone ⊢
  generalize totalStake slots = total at hpos hquo ⊢
  have hscaled : total * w * (2 * Dec.one) ≤ (ext * slot.stake + total) * (2 * Dec.one) := by
    calc total * w * (2 * Dec.one) = (2 * w * Dec.one) * total := by ring
      _ ≤ (2 * (g * ext) + Dec.one) * total := mul_le_mul_of_nonneg_right hmul hpos.le
      _ = (2 * g * total) * ext + Dec.one * total := by ring
      _ ≤ (2 * (slot.stake * Dec.one) + total) * ext + Dec.one * total := by
        have hle := mul_le_mul_of_nonneg_right hquo hext
        linarith
      _ ≤ (ext * slot.stake + total) * (2 * Dec.one) := by
        have hle := mul_le_mul_of_nonneg_right hone hpos.le
        linarith
  exact le_of_mul_le_mul_right hscaled (mul_pos two_pos Dec.one_pos)

/-- The internal slots have at most a unit each more than their share. -/
theorem power_internal_le (i : Instance N Account) (n : ℕ) :
    n * N.quoRaw i.harmonyVotePercent.raw (Dec.newDec n).raw ≤ i.harmonyVotePercent.raw + n := by
  have hh := i.harmony_nonneg
  rcases Nat.eq_zero_or_pos n with rfl | hn
  · simpa using hh
  · have hpos : (0 : ℤ) < n := by exact_mod_cast hn
    have hquo := N.quoRaw_le_half _ _ hh
      (show 0 < (Dec.newDec n).raw from mul_pos hpos Dec.one_pos)
    generalize N.quoRaw i.harmonyVotePercent.raw (Dec.newDec n).raw = w at hquo ⊢
    have hraw : (Dec.newDec n).raw = n * Dec.one := rfl
    rw [hraw] at hquo
    have hscaled : 2 * (n * w) * Dec.one ≤ (2 * i.harmonyVotePercent.raw + n) * Dec.one := by
      linarith
    have hle := le_of_mul_le_mul_right hscaled Dec.one_pos
    omega

/-- The shares of some of the slots; the stakes and the internal slots among them are counted. -/
theorem totalPower_le (hnonneg : ∀ slot ∈ slots, 0 ≤ slot.stake) (hpos : 0 < totalStake slots)
    (hsub : before ⊆ slots) :
    totalStake slots * (shares i slots).totalPower before ≤
      i.externalVotePercent.raw * totalStake before +
        totalStake slots * (before.countP Slot.isStaked + internalCount before *
          N.quoRaw i.harmonyVotePercent.raw (Dec.newDec (internalCount slots)).raw) := by
  induction before with
  | nil => simp [Shares.totalPower, overall, totalStake, internalCount]
  | cons slot before ih =>
    have hrest := ih fun s hs => hsub (List.mem_cons_of_mem _ hs)
    have hstakes : totalStake (slot :: before) = slot.stake + totalStake before := rfl
    simp only [Shares.totalPower_cons, hstakes, internalCount, List.countP_cons] at hrest ⊢
    rcases slot_cases slot with ⟨e, -, hstaked, -⟩ | ⟨hstake, hinternal, he⟩
    · have hslot := power_staked_le (i := i) hstaked (hnonneg slot (hsub List.mem_cons_self)) hpos
      simp only [hstaked, Bool.not_true, Bool.false_eq_true, if_true, if_false]
      push_cast
      linarith
    · have hslot : (shares i slots).power slot =
          N.quoRaw i.harmonyVotePercent.raw (Dec.newDec (internalCount slots)).raw := by
        simp only [Shares.power, hstake]
        rfl
      rw [internalCount] at hslot
      simp only [hinternal, Bool.not_false, Bool.false_eq_true, if_true, if_false, he, hslot]
      push_cast
      linarith

/-- The shares add up to at most one and a unit for every slot. -/
theorem power_sum_le (hnonneg : ∀ slot ∈ slots, 0 ≤ slot.stake) (hpos : 0 < totalStake slots) :
    (shares i slots).totalPower slots ≤ Dec.one + slots.length := by
  have hall := totalPower_le (i := i) hnonneg hpos (List.Subset.refl slots)
  have hinternal := power_internal_le i (internalCount slots)
  have hlength : (slots.countP Slot.isStaked : ℤ) + internalCount slots = slots.length := by
    have hcount := List.length_eq_countP_add_countP (l := slots) Slot.isStaked
    have hnot : internalCount slots = slots.countP fun s => decide ¬ s.isStaked = true := by
      unfold internalCount
      congr 1
      funext s
      simp
    rw [hnot, hcount]
    push_cast
    rfl
  have hone : i.harmonyVotePercent.raw + i.externalVotePercent.raw = Dec.one := by
    have := i.external_raw
    omega
  generalize (internalCount slots : ℤ) *
    N.quoRaw i.harmonyVotePercent.raw (Dec.newDec (internalCount slots)).raw = w
    at hall hinternal
  refine le_of_mul_le_mul_left ?_ hpos
  calc totalStake slots * (shares i slots).totalPower slots
      ≤ totalStake slots * (i.externalVotePercent.raw + (slots.countP Slot.isStaked + w)) := by
        linarith
    _ ≤ totalStake slots * (Dec.one + slots.length) := by
        refine mul_le_mul_of_nonneg_left ?_ hpos.le
        omega

end Sum

end Votepower

/-! ## The voters -/

section listed

variable {l l₁ l₂ : List Share} {s x : Share} {P : Share → Prop}

theorem mem_listed : s ∈ listed l ↔
    ∃ i, l[i]? = some s ∧ l.findIdx? (·.identity == s.identity) = some i := by
  simp [listed, List.mem_zipIdx_iff_getElem?]

/-- A share between others is a voter's if its key is new. -/
theorem forall_listed_iff (h : ∀ s ∈ l₁ ++ l₂, P s) :
    (∀ s ∈ listed (l₁ ++ x :: l₂), P s) ↔ (x.identity ∉ l₁.map Share.identity → P x) := by
  constructor
  · intro hall hnew
    refine hall x (mem_listed.2 ⟨l₁.length, by simp, ?_⟩)
    have hnone : (l₁.findIdx? fun s => s.identity == x.identity) = none := by
      rw [List.findIdx?_eq_none_iff]
      intro s hs
      rw [beq_eq_false_iff_ne]
      exact fun heq => hnew (heq ▸ List.mem_map_of_mem hs)
    rw [List.findIdx?_append, hnone, List.findIdx?_cons]
    simp
  · intro hx s hs
    obtain ⟨i, hget, hfind⟩ := mem_listed.1 hs
    have hmem := List.mem_of_getElem? hget
    rw [List.mem_append, List.mem_cons] at hmem
    rcases hmem with hs | rfl | hs
    · exact h s (List.mem_append_left _ hs)
    · by_cases hnew : s.identity ∈ l₁.map Share.identity
      · -- its key points to a share before
        obtain ⟨u, hu, hkey⟩ := List.mem_map.1 hnew
        have hsome : (l₁.findIdx? fun u => u.identity == s.identity).isSome := by
          rw [List.findIdx?_isSome, List.any_eq_true]
          exact ⟨u, hu, beq_iff_eq.2 hkey⟩
        obtain ⟨j, hj⟩ := Option.isSome_iff_exists.1 hsome
        rw [List.findIdx?_append, hj, Option.some_or] at hfind
        obtain rfl := Option.some.inj hfind
        rw [List.getElem?_append_left (List.findIdx?_eq_some_iff_getElem.1 hj).1] at hget
        exact h s (List.mem_append_left _ (List.mem_of_getElem? hget))
      · exact hx hnew
    · exact h s (List.mem_append_right _ hs)

end listed

namespace Votepower

variable {N : Numeric} {Account : Type} {i : Instance N Account} {slots before after : List Slot}
  {slot : Slot}

/-- The shares of the voters are in the range exactly if the last staked one is, should it be a
    voter. -/
theorem allot_inUnit_iff (hnonneg : ∀ slot ∈ slots, 0 ≤ slot.stake)
    (hzero : ∀ slot ∈ slots, ¬ DividesByZero i slots slot) :
    (∀ s ∈ listed ((shares i slots).allot slots), s.InUnit) ↔
      RestFits (shares i slots) slots := by
  have hunit : ∀ {done}, done ⊆ slots → ∀ s ∈ done.map (shares i slots).share, s.InUnit :=
    fun hsub => shares_inUnit hnonneg hsub fun slot hslot => hzero slot (hsub hslot)
  by_cases hstaked : ∃ slot ∈ slots, slot.isStaked
  · obtain ⟨before, slot, after, hlast⟩ := exists_last hstaked
    have hothers := hunit hlast.subset
    have hrest := (overall_bounds hothers).1
    have hgroup := (share_inUnit hnonneg hlast.mem (hzero slot hlast.mem)).1
    rw [List.map_append] at hothers
    rw [Shares.allot_of_last hlast, forall_listed_iff hothers, List.map_map]
    constructor
    · intro hx before₁ slot₁ after₁ hlast₁ hnew
      obtain ⟨rfl, rfl, rfl⟩ := hlast.unique hlast₁
      have hpos := (hx hnew).2.1
      exact sub_nonneg.1 hpos
    · intro hfits hnew
      have hle := hfits before slot after hlast hnew
      exact ⟨hgroup, sub_nonneg.2 hle, sub_le_self _ hrest⟩
  · refine iff_of_true (fun s hs => ?_) fun before slot after hlast => ?_
    · obtain ⟨n, hget, -⟩ := mem_listed.1 hs
      have hall : ∀ s ∈ slots, s.isStaked = false := by simpa using hstaked
      rw [Shares.allot, Shares.allotFrom_of_internal _ hall] at hget
      exact hunit (List.Subset.refl _) s (List.mem_of_getElem? hget)
    · exact absurd ⟨slot, hlast.mem, hlast.staked⟩ hstaked

/-- A last staked slot with a unit for every slot can give what the others have too much. -/
theorem restFits_of_power (hnonneg : ∀ slot ∈ slots, 0 ≤ slot.stake)
    (hzero : ∀ slot ∈ slots, ¬ DividesByZero i slots slot)
    (hpower : ∀ before slot after, LastSlot slots before slot after →
      (slots.length : ℤ) ≤ (shares i slots).power slot) : RestFits (shares i slots) slots := by
  intro before slot after hlast _
  have hne : totalStake slots ≠ 0 := by
    have hslot := hzero slot hlast.mem
    rwa [DividesByZero, if_pos hlast.staked] at hslot
  have hpos : 0 < totalStake slots := lt_of_le_of_ne (totalStake_nonneg hnonneg) hne.symm
  have hsum := power_sum_le (i := i) hnonneg hpos
  have hsplit : ∀ p : Shares N, p.totalPower slots =
      p.totalPower (before ++ after) + p.power slot := by
    intro p
    rw [hlast.eq, Shares.totalPower_append, Shares.totalPower_append, Shares.totalPower_cons]
    ring
  have htotal := hsplit (shares i slots)
  have hlarge := hpower before slot after hlast
  omega

/-- **The range of voting power.**  For stakes that are not negative and outside the recovery,
    `Compute` does not divide by zero and gives every voter a power between zero and one exactly if
    the stake of all slots is too long, or if no slot divides by zero and the slots other than the
    last staked one, if that is a voter, have at most one together.  They have if the last staked
    slot has at least a unit for every slot. -/
theorem inRange_iff (schedule : ℤ → Instance N Account) (network : NetworkType)
    (subComm : ShardCommittee) (epoch : ℤ) (hout : inRecovery network epoch = false)
    (hnonneg : ∀ slot ∈ subComm.slots, 0 ≤ slot.stake) :
    (InRange (compute schedule network subComm (some epoch)) ↔
      ¬ N.Fits (totalStake subComm.slots) ∨
        (∀ slot ∈ subComm.slots, ¬ DividesByZero (schedule epoch) subComm.slots slot) ∧
          RestFits (shares (schedule epoch) subComm.slots) subComm.slots) ∧
      ((∀ slot ∈ subComm.slots, ¬ DividesByZero (schedule epoch) subComm.slots slot) →
        (∀ before slot after, LastSlot subComm.slots before slot after →
          (subComm.slots.length : ℤ) ≤ (shares (schedule epoch) subComm.slots).power slot) →
        InRange (compute schedule network subComm (some epoch))) := by
  have hiff : InRange (compute schedule network subComm (some epoch)) ↔
      ¬ N.Fits (totalStake subComm.slots) ∨
        (∀ slot ∈ subComm.slots, ¬ DividesByZero (schedule epoch) subComm.slots slot) ∧
          RestFits (shares (schedule epoch) subComm.slots) subComm.slots := by
    rcases @compute_cases N _ schedule network subComm epoch hout hnonneg with
      ⟨hlong, heq⟩ | ⟨hfits, ⟨⟨slot, hslot, hzero⟩, heq⟩ | ⟨hnone, r, heq⟩⟩
    · rw [heq]
      exact iff_of_true ⟨by simp, by simp⟩ (Or.inl hlong)
    · rw [heq]
      refine iff_of_false (fun h => h.1 rfl) ?_
      rintro (hlong | ⟨hnone, -⟩)
      · exact hlong hfits
      · exact hnone slot hslot hzero
    · have hvotes : InRange (compute schedule network subComm (some epoch)) ↔
          ∀ s ∈ r.votes.map Voter.share, s.InUnit := by
        rw [heq, InRange]
        simp
      rw [hvotes, or_iff_right (not_not.2 hfits), and_iff_right hnone,
        ← allot_inUnit_iff hnonneg hnone]
      refine forall_congr' fun s => ?_
      rw [(allotted_of_compute hout heq).votes_perm.mem_iff]
  refine ⟨hiff, fun hzero hpower => hiff.2 (Or.inr ⟨hzero, ?_⟩)⟩
  exact restFits_of_power hnonneg hzero hpower

end Votepower

namespace Concrete

open Votepower

/-- Two staked slots share one half, and the last has three quarters of it. -/
theorem threeSlots_inRange :
    (∀ slot ∈ threeSlots, ¬ DividesByZero (halfSchedule 0) threeSlots slot) ∧
      InRange (compute halfSchedule .mainnet ⟨0, threeSlots, by decide⟩ (some 0)) := by
  have hzero : ∀ slot ∈ threeSlots, ¬ DividesByZero (halfSchedule 0) threeSlots slot := by
    decide +kernel
  have hlast : LastSlot threeSlots [slotAt 1 none, slotAt 2 (some 1)] (slotAt 3 (some 3)) [] :=
    ⟨rfl, rfl, by simp⟩
  refine ⟨hzero, (inRange_iff halfSchedule .mainnet ⟨0, threeSlots, by decide⟩ 0 rfl
    (by decide +kernel)).2 hzero fun before slot after h => ?_⟩
  obtain ⟨-, rfl, -⟩ := hlast.unique h
  decide +kernel

/-- All the power for the staked slots, in every epoch. -/
def stakedSchedule (epoch : ℤ) : Instance numeric Unit :=
  { halfSchedule epoch with
    harmonyVotePercent := ⟨0⟩
    externalVotePercent := ⟨1000000000000000000⟩
    harmony_nonneg := by decide
    harmony_le_one := by decide
    external_eq := by decide }

/-- A slot without a stake divides by zero if no other one is staked, and so does an internal slot
    if the internal nodes have no share. -/
theorem power_undefined :
    (compute halfSchedule .mainnet ⟨0, [slotAt 1 none, slotAt 2 (some 0)], by decide⟩ (some 0) =
        .error .divisionByZero ∧
      ¬ InRange (compute halfSchedule .mainnet ⟨0, [slotAt 1 none, slotAt 2 (some 0)], by decide⟩
        (some 0))) ∧
      compute stakedSchedule .mainnet ⟨0, [slotAt 1 none, slotAt 2 (some 1)], by decide⟩ (some 0) =
        .error .divisionByZero := by
  have hzero : compute halfSchedule .mainnet ⟨0, [slotAt 1 none, slotAt 2 (some 0)], by decide⟩
      (some 0) = .error .divisionByZero := rfl
  exact ⟨⟨hzero, fun h => h.1 hzero⟩, rfl⟩

end Concrete

end Benzene
