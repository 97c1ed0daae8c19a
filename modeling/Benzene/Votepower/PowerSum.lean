import Benzene.Votepower.Roster

/-!
# Voting power adds up

`Compute` allots a share to every slot, and the shares add up to one: sums are exact, and the last
staked slot gets what is missing.  But of the slots that have the same key only the first is a
voter.

* `Tallied`: the loop over the slots, with what it has gone through.
* `Shares.allot`: the shares in the end, as a function of the slots.
* `voters_addUp_iff`: the voters add up exactly when the slots whose key is that of an earlier one
  have no power.
-/

namespace Benzene

/-- The units of the voting power of some shares. -/
def overall (shares : List Share) : ℤ := (shares.map Share.power).sum

/-- The shares of internal slots. -/
def internal (shares : List Share) : List Share := shares.filter fun s => s.isHarmonyNode

/-- The shares of staked slots. -/
def external (shares : List Share) : List Share := shares.filter fun s => !s.isHarmonyNode

section overall

variable {l l' : List Share}

theorem overall_cons {s : Share} : overall (s :: l) = s.power + overall l := rfl

theorem overall_append : overall (l ++ l') = overall l + overall l' := by
  simp [overall]

theorem overall_perm (h : l.Perm l') : overall l = overall l' := (h.map _).sum_eq

theorem internal_append : internal (l ++ l') = internal l ++ internal l' := List.filter_append ..

theorem external_append : external (l ++ l') = external l ++ external l' := List.filter_append ..

theorem overall_split : overall l = overall (internal l) + overall (external l) := by
  rw [← overall_append]
  exact (overall_perm (List.filter_append_perm _ l)).symm

end overall

namespace Votepower

/-! ## The last staked slot -/

/-- The last staked slot, with those before and after it. -/
structure LastSlot (slots before : List Slot) (slot : Slot) (after : List Slot) : Prop where
  eq : slots = before ++ slot :: after
  staked : slot.isStaked = true
  internal : ∀ s ∈ after, s.isStaked = false

/-- The index of the last staked slot. -/
inductive LastStaked : List Slot → Option ℕ → Prop
  | none {slots : List Slot} (h : ∀ s ∈ slots, s.isStaked = false) : LastStaked slots none
  | some {slots before after : List Slot} {slot : Slot} (h : LastSlot slots before slot after) :
      LastStaked slots (some before.length)

variable {N : Numeric} {p : Shares N} {slots before after : List Slot} {slot : Slot} {t t' : Tally}

theorem LastStaked.concat {last : Option ℕ} (h : LastStaked slots last)
    (hslot : slot.isStaked = false) : LastStaked (slots ++ [slot]) last := by
  have hall : ∀ {l : List Slot}, (∀ s ∈ l, s.isStaked = false) →
      ∀ s ∈ l ++ [slot], s.isStaked = false := by
    intro l hl s hs
    rcases List.mem_append.1 hs with hmem | hmem
    · exact hl s hmem
    · exact List.mem_singleton.1 hmem ▸ hslot
  cases h with
  | none h => exact .none (hall h)
  | some h =>
    refine .some ⟨?_, h.staked, hall h.internal⟩
    rw [h.eq, List.append_assoc, List.cons_append]

theorem lastStaked_concat (hslot : slot.isStaked = true) :
    LastStaked (slots ++ [slot]) (some slots.length) := .some ⟨rfl, hslot, by simp⟩

/-! ## What is allotted -/

namespace Shares

/-- The shares of some slots, of which the last staked one has `rest` more. -/
def allotFrom (p : Shares N) (rest : ℤ) : List Slot → List Share
  | [] => []
  | slot :: slots =>
    (if slot.isStaked && slots.all fun s => !s.isStaked then
      { p.share slot with power := p.power slot + rest }
    else p.share slot) :: allotFrom p rest slots

/-- The units of the voting power of some slots. -/
def totalPower (p : Shares N) (slots : List Slot) : ℤ := overall (slots.map p.share)

/-- The shares of a committee: the last staked slot gets what is missing to one. -/
def allot (p : Shares N) (slots : List Slot) : List Share :=
  p.allotFrom (Dec.one - p.totalPower slots) slots

theorem totalPower_cons : p.totalPower (slot :: slots) = p.power slot + p.totalPower slots := rfl

theorem totalPower_append :
    p.totalPower (before ++ after) = p.totalPower before + p.totalPower after := by
  rw [totalPower, List.map_append, overall_append]
  rfl

theorem allotFrom_of_internal (rest : ℤ) (h : ∀ s ∈ slots, s.isStaked = false) :
    p.allotFrom rest slots = slots.map p.share := by
  induction slots with
  | nil => rfl
  | cons slot slots ih =>
    have hslot := h slot List.mem_cons_self
    rw [allotFrom, ih fun s hs => h s (List.mem_cons_of_mem _ hs), hslot]
    rfl

theorem allotFrom_of_last (rest : ℤ) (hslot : slot.isStaked = true)
    (hafter : ∀ s ∈ after, s.isStaked = false) :
    p.allotFrom rest (before ++ slot :: after) = before.map p.share ++
      { p.share slot with power := p.power slot + rest } :: after.map p.share := by
  induction before with
  | nil =>
    have hall : (after.all fun s => !s.isStaked) = true := by simpa using hafter
    rw [List.nil_append, allotFrom, allotFrom_of_internal rest hafter, hslot, hall]
    rfl
  | cons s before ih =>
    have hnot : ((before ++ slot :: after).all fun s => !s.isStaked) = false := by simp [hslot]
    rw [List.cons_append, allotFrom, ih, hnot, Bool.and_false]
    rfl

/-- The last staked slot has what the others leave of one. -/
theorem allot_of_last (h : LastSlot slots before slot after) :
    p.allot slots = before.map p.share ++
      { p.share slot with power := Dec.one - p.totalPower (before ++ after) } ::
        after.map p.share := by
  have hrest : p.power slot + (Dec.one - p.totalPower slots) =
      Dec.one - p.totalPower (before ++ after) := by
    rw [h.eq, totalPower_append, totalPower_append, totalPower_cons]
    ring
  rw [allot, ← hrest]
  generalize Dec.one - p.totalPower slots = rest
  rw [h.eq, allotFrom_of_last rest h.staked h.internal]

theorem overall_allot (h : LastSlot slots before slot after) :
    overall (p.allot slots) = Dec.one := by
  rw [allot_of_last h, overall_append, overall_cons, totalPower_append, totalPower, totalPower]
  ring

theorem allot_identity (p : Shares N) (slots : List Slot) :
    (p.allot slots).map Share.identity = slots.map Slot.blsPublicKey := by
  unfold allot
  generalize Dec.one - p.totalPower slots = rest
  induction slots with
  | nil => rfl
  | cons slot slots ih =>
    rw [allotFrom, List.map_cons, List.map_cons, ih]
    split_ifs <;> rfl

end Shares

/-! ## The loop -/

/-- The variables of the loop after some slots, with their shares. -/
structure Tallied (slots : List Slot) (l : List Share) (t : Tally) : Prop where
  members : t.members.map Voter.share = l
  our : t.ourPercentage.raw = overall (internal l)
  their : t.theirPercentage.raw = overall (external l)
  voters : ∀ k, t.voters.lookup k = l.findIdx? (·.identity == k)
  last : LastStaked slots t.lastStakedVoter

theorem tallied_start : Tallied [] [] Tally.start where
  members := rfl
  our := rfl
  their := rfl
  voters _ := rfl
  last := .none (by simp)

/-- A key that is new points to the new vote. -/
theorem lookup_enter {voters : GoMap SerializedPublicKey ℕ} {l : List Share}
    (h : ∀ k, voters.lookup k = l.findIdx? (·.identity == k)) (s : Share)
    (k : SerializedPublicKey) :
    (if (voters.lookup s.identity).isSome then voters
      else voters.insert s.identity l.length).lookup k =
      (l ++ [s]).findIdx? (·.identity == k) := by
  rw [List.findIdx?_append, ← h]
  by_cases hk : s.identity = k
  · subst hk
    cases hlookup : voters.lookup s.identity with
    | some i => simp [hlookup]
    | none => simp
  · have hnone : [s].findIdx? (·.identity == k) = none := by simp [hk]
    rw [hnone, Option.map_none, Option.or_none]
    split_ifs
    · rfl
    · rw [GoMap.lookup_insert_eq, if_neg (Ne.symm hk)]

theorem Tallied.enter (h : Tallied slots (slots.map p.share) t) (hr : p.enter t slot = .ok t') :
    Tallied (slots ++ [slot]) ((slots ++ [slot]).map p.share) t' := by
  obtain ⟨v, hvote, hr⟩ := Run.ok_of_bind hr
  have hv := Shares.share_of_vote hvote
  have hpower : v.overallPercent.raw = (p.share slot).power := congrArg Share.power hv
  have hlength : t.members.length = (slots.map p.share).length := by simp [← h.members]
  have hvoters := lookup_enter h.voters (p.share slot)
  rw [← hlength] at hvoters
  rw [List.map_append, List.map_singleton]
  have hmembers : (t.members ++ [v]).map Voter.share = slots.map p.share ++ [p.share slot] := by
    rw [List.map_append, h.members, List.map_singleton, hv]
  dsimp only at hr
  cases hstake : slot.effectiveStake with
  | some e =>
    rw [hstake] at hr
    obtain ⟨theirs, hadd, hr⟩ := Run.ok_of_bind hr
    obtain rfl := Except.ok.inj hr
    have hstaked : slot.isStaked = true := by simp [Slot.isStaked, hstake]
    have hnode : (p.share slot).isHarmonyNode = false := by simp [Shares.share, hstaked]
    have hlast : LastStaked (slots ++ [slot]) (some t.members.length) := by
      rw [hlength, List.length_map]
      exact lastStaked_concat hstaked
    refine ⟨hmembers, ?_, ?_, hvoters, hlast⟩
    · rw [internal_append, overall_append, h.our]
      simp [internal, overall, hnode]
    · rw [external_append, overall_append, Numeric.raw_of_add hadd, h.their, hpower]
      simp [external, overall, hnode]
  | none =>
    rw [hstake] at hr
    obtain ⟨ours, hadd, hr⟩ := Run.ok_of_bind hr
    obtain rfl := Except.ok.inj hr
    have hinternal : slot.isStaked = false := by simp [Slot.isStaked, hstake]
    have hnode : (p.share slot).isHarmonyNode = true := by simp [Shares.share, hinternal]
    refine ⟨hmembers, ?_, ?_, hvoters, h.last.concat hinternal⟩
    · rw [internal_append, overall_append, Numeric.raw_of_add hadd, h.our, hpower]
      simp [internal, overall, hnode]
    · rw [external_append, overall_append, h.their]
      simp [external, overall, hnode]

theorem foldlM_tallied (h : slots.foldlM p.enter Tally.start = .ok t) :
    Tallied slots (slots.map p.share) t :=
  Run.foldlM_rule (fun slots => Tallied slots (slots.map p.share)) (fun h hr => h.enter hr)
    tallied_start h

/-! ## What is missing to one -/

/-- The units that are missing to one. -/
def Tally.diff (t : Tally) : ℤ := Dec.one - (t.ourPercentage.raw + t.theirPercentage.raw)

/-- The shares when the last staked slot has got what is missing. -/
theorem Tallied.allot_eq (h : Tallied slots (slots.map p.share) t)
    (hlast : LastSlot slots before slot after) :
    p.allot slots = before.map p.share ++
      { p.share slot with power := p.power slot + t.diff } :: after.map p.share := by
  have hdiff : t.diff = Dec.one - p.totalPower slots := by
    rw [Tally.diff, h.our, h.their, ← overall_split]
    rfl
  rw [Shares.allot, ← hdiff]
  generalize t.diff = rest
  rw [hlast.eq, Shares.allotFrom_of_last rest hlast.staked hlast.internal]

theorem Tallied.giveDiff (h : Tallied slots (slots.map p.share) t) (hr : t.giveDiff N = .ok t') :
    Tallied slots (p.allot slots) t' := by
  obtain ⟨sum, hsum, hr⟩ := Run.ok_of_bind hr
  obtain ⟨diff, hdiff, hr⟩ := Run.ok_of_bind hr
  have heq : diff.raw = t.diff := by
    rw [Numeric.raw_of_sub hdiff, Numeric.raw_of_add hsum]
    rfl
  have hlast := h.last
  generalize hvoter : t.lastStakedVoter = last at hlast hr
  cases hlast with
  | none hall =>
    obtain rfl := Except.ok.inj hr
    have hallot : p.allot slots = slots.map p.share := Shares.allotFrom_of_internal _ hall
    exact hallot ▸ h
  | @some before after slot hslot =>
    have hallot := h.allot_eq hslot
    have hmap : slots.map p.share = before.map p.share ++ p.share slot :: after.map p.share := by
      rw [hslot.eq, List.map_append, List.map_cons]
    dsimp only at hr
    split_ifs at hr with hzero
    · obtain rfl := Except.ok.inj hr
      have hdiff0 : t.diff = 0 := by
        rw [← heq, hzero]
        rfl
      rw [hdiff0, add_zero] at hallot
      exact hmap.trans hallot.symm ▸ h
    · -- the vote of the last staked slot, between the others
      obtain ⟨front, rest, hmembers, hfront, hrest⟩ := List.map_eq_append_iff.1
        (h.members.trans hmap)
      obtain ⟨v, back, rfl, hv, hback⟩ := List.map_eq_cons_iff.1 hrest
      have hlength : before.length = front.length := by
        simpa using (congrArg List.length hfront).symm
      have hget : t.members[before.length]? = some v := by simp [hmembers, hlength]
      rw [hget] at hr
      obtain ⟨overallPercent, hoverall, hr⟩ := Run.ok_of_bind hr
      obtain ⟨theirPercentage, htheirs, hr⟩ := Run.ok_of_bind hr
      obtain rfl := Except.ok.inj hr
      refine ⟨?_, ?_, ?_, fun k => ?_, .some hslot⟩
      · have hpower : overallPercent.raw = p.power slot + t.diff := by
          rw [Numeric.raw_of_add hoverall, heq]
          exact congrArg (·.power + t.diff) hv
        have hshare : ({ v with overallPercent } : Voter).share =
            { p.share slot with power := p.power slot + t.diff } := by
          rw [← hv, ← hpower]
          rfl
        rw [hallot, ← hfront, ← hback, hmembers, hlength, ← hshare]
        simp
      · rw [h.our, hallot, hmap]
        simp [internal, Shares.share, hslot.staked]
      · rw [Numeric.raw_of_add htheirs, heq, h.their, hallot, hmap]
        simp [external, overall, Shares.share, hslot.staked]
        ring
      · rw [h.voters, hallot, hmap, List.findIdx?_append, List.findIdx?_append,
          List.findIdx?_cons, List.findIdx?_cons]

end Votepower

/-! ## Rosters -/

/-- The shares whose key no earlier one has. -/
def listed (l : List Share) : List Share :=
  (l.zipIdx.filter fun s => l.findIdx? (·.identity == s.1.identity) = some s.2).map Prod.fst

/-- The shares whose key is that of an earlier one. -/
def unlisted (l : List Share) : List Share :=
  (l.zipIdx.filter fun s => !(l.findIdx? (·.identity == s.1.identity) = some s.2)).map Prod.fst

theorem listed_append_unlisted (l : List Share) : (listed l ++ unlisted l).Perm l := by
  unfold listed unlisted
  rw [← List.map_append]
  have hperm := (List.filter_append_perm (fun s : Share × ℕ =>
    decide (l.findIdx? (·.identity == s.1.identity) = some s.2)) l.zipIdx).map Prod.fst
  rwa [List.zipIdx_map_fst] at hperm

/-- Different keys leave nothing out. -/
theorem unlisted_eq_nil {l : List Share} (h : (l.map Share.identity).Nodup) : unlisted l = [] := by
  rw [unlisted, List.map_eq_nil_iff, List.filter_eq_nil_iff]
  rintro ⟨s, i⟩ hmem
  have hi : l[i]? = some s := List.mem_zipIdx_iff_getElem?.1 hmem
  obtain ⟨hlt, hs⟩ := List.getElem?_eq_some_iff.1 hi
  have hfind : l.findIdx? (·.identity == s.identity) = some i := by
    refine List.findIdx?_eq_some_iff_getElem.2 ⟨hlt, by simp [hs], fun j hj heq => ?_⟩
    have hsame : (l.map Share.identity)[j]? = (l.map Share.identity)[i]? := by
      rw [List.getElem?_map, List.getElem?_map, hi, List.getElem?_eq_getElem (hj.trans hlt)]
      exact congrArg some (beq_iff_eq.1 heq)
    have hj' := (List.getElem?_inj (by simpa using hj.trans hlt) h).1 hsame
    omega
  simp [hfind]

namespace Roster

/-- The votes of the voters. -/
def votes (r : Roster) : List Voter := (GoMap.values r.voters).filterMap fun i => r.members[i]?

/-- The voting power of the voters is one, and splits into the reported totals. -/
structure AddsUp (r : Roster) : Prop where
  total : overall (r.votes.map Voter.share) = Dec.one
  internal : overall (internal (r.votes.map Voter.share)) = r.ourVotingPowerTotalPercentage.raw
  external : overall (external (r.votes.map Voter.share)) = r.theirVotingPowerTotalPercentage.raw

variable {r : Roster} {l : List Share}

section

variable (h : ∀ k, r.voters.lookup k = l.findIdx? (·.identity == k))

include h

/-- The share a key points to has that key. -/
theorem share_of_lookup {k : SerializedPublicKey} {i : ℕ} (hk : r.voters.lookup k = some i) :
    ∃ s, l[i]? = some s ∧ s.identity = k := by
  rw [h, List.findIdx?_eq_some_iff_getElem] at hk
  obtain ⟨hi, hkey, -⟩ := hk
  exact ⟨l[i], List.getElem?_eq_getElem hi, beq_iff_eq.1 hkey⟩

theorem values_perm : (GoMap.values r.voters).Perm
    ((l.zipIdx.filter fun s => l.findIdx? (·.identity == s.1.identity) = some s.2).map
      Prod.snd) := by
  have hkeyed : ∀ {k i}, r.voters.lookup k = some i →
      ((l[i]?).map Share.identity).getD (zeroBytes 48) = k := by
    intro k i hk
    obtain ⟨s, hs, hkey⟩ := share_of_lookup h hk
    rw [hs]
    exact hkey
  have hnodup : (GoMap.values r.voters).Nodup := GoMap.nodup_values hkeyed
  have hsub := (List.filter_sublist (p := fun s : Share × ℕ =>
    decide (l.findIdx? (·.identity == s.1.identity) = some s.2)).map Prod.snd).nodup
    (List.nodup_zipIdx_map_snd l)
  rw [List.perm_ext_iff_of_nodup hnodup hsub]
  intro i
  rw [GoMap.mem_values_iff, List.mem_map]
  constructor
  · rintro ⟨k, hk⟩
    obtain ⟨s, hs, rfl⟩ := share_of_lookup h hk
    exact ⟨(s, i), List.mem_filter.2 ⟨List.mem_zipIdx_iff_getElem?.2 hs,
      decide_eq_true ((h _).symm.trans hk)⟩, rfl⟩
  · rintro ⟨⟨s, j⟩, hmem, rfl⟩
    exact ⟨s.identity, (h _).trans (of_decide_eq_true (List.mem_filter.1 hmem).2)⟩

/-- The voters have the shares that are listed. -/
theorem votes_perm (hmembers : r.members.map Voter.share = l) :
    (r.votes.map Voter.share).Perm (listed l) := by
  have hvotes : r.votes.map Voter.share = (GoMap.values r.voters).filterMap fun i => l[i]? := by
    rw [votes, List.map_filterMap]
    refine List.filterMap_congr fun i _ => ?_
    rw [← hmembers, List.getElem?_map]
  have hget : ((l.zipIdx.filter fun s => l.findIdx? (·.identity == s.1.identity) = some s.2).map
      Prod.snd).filterMap (fun i => l[i]?) = listed l := by
    rw [List.filterMap_map, listed, ← List.filterMap_eq_map]
    refine List.filterMap_congr fun s hs => ?_
    exact List.mem_zipIdx_iff_getElem?.1 (List.mem_of_mem_filter hs)
  rw [hvotes, ← hget]
  exact (values_perm h).filterMap _

end

end Roster

namespace Votepower

variable {N : Numeric} {Account : Type} {schedule : ℤ → Instance N Account} {network : NetworkType}
  {subComm : ShardCommittee} {epoch : ℤ} {r : Roster} {p : Shares N} {slots : List Slot}
  {t t' : Tally}

/-- The units of the stake of all slots. -/
def totalStake (slots : List Slot) : ℤ := (slots.map Slot.stake).sum

/-- The number of internal slots. -/
def internalCount (slots : List Slot) : ℕ := slots.countP fun slot => !slot.isStaked

/-- The shares of a committee, outside the recovery. -/
def shares (i : Instance N Account) (slots : List Slot) : Shares N :=
  ⟨⟨totalStake slots⟩, Dec.newDec (internalCount slots), i.harmonyVotePercent,
    i.externalVotePercent⟩

/-- A roster has the shares that are allotted to the slots. -/
structure Allotted (p : Shares N) (slots : List Slot) (r : Roster) : Prop where
  members : r.members.map Voter.share = p.allot slots
  our : r.ourVotingPowerTotalPercentage.raw = overall (internal (p.allot slots))
  their : r.theirVotingPowerTotalPercentage.raw = overall (external (p.allot slots))
  voters : ∀ k, r.voters.lookup k = (p.allot slots).findIdx? (·.identity == k)

theorem Allotted.votes_perm (h : Allotted p slots r) :
    (r.votes.map Voter.share).Perm (listed (p.allot slots)) :=
  Roster.votes_perm h.voters h.members

theorem tallyStakes_eq_of_ok {stakes : Dec × ℤ} (h : tallyStakes N slots = .ok stakes) :
    stakes = (⟨totalStake slots⟩, (internalCount slots : ℤ)) := by
  have hstart : (Dec.zeroDec, (0 : ℤ)) = (⟨totalStake []⟩, (internalCount [] : ℤ)) := rfl
  refine Run.foldlM_rule (fun done (acc : Dec × ℤ) =>
    acc = (⟨totalStake done⟩, (internalCount done : ℤ))) ?_ hstart h
  rintro done acc slot acc' rfl hr
  cases hstake : slot.effectiveStake with
  | some e =>
    simp only [tallyStake, hstake] at hr
    cases hadd : N.add ⟨totalStake done⟩ e with
    | error err =>
      rw [hadd] at hr
      cases hr
    | ok total =>
      rw [hadd] at hr
      obtain rfl := Except.ok.inj hr
      have htotal : total = ⟨totalStake done + e.raw⟩ := by rw [← Numeric.raw_of_add hadd]
      simp [totalStake, internalCount, Slot.stake, Slot.isStaked, hstake, htotal]
  | none =>
    simp only [tallyStake, hstake] at hr
    obtain rfl := Except.ok.inj hr
    simp [totalStake, internalCount, Slot.stake, Slot.isStaked, hstake]

theorem giveDiff_of_settle (h : t.settle N = .ok (.ok t')) : t.giveDiff N = .ok t' := by
  obtain ⟨t₁, hgive, h⟩ := Run.ok_of_bind h
  rw [hgive]
  cases hlast : t₁.lastStakedVoter with
  | none =>
    rw [hlast] at h
    exact congrArg Except.ok (Except.ok.inj (Except.ok.inj h))
  | some i =>
    rw [hlast] at h
    obtain ⟨sum, -, h⟩ := Run.ok_of_bind h
    split_ifs at h
    · exact congrArg Except.ok (Except.ok.inj (Except.ok.inj h))
    · cases Except.ok.inj h

theorem percentages_eq (hout : inRecovery network epoch = false) :
    percentages schedule network epoch =
      ((schedule epoch).harmonyVotePercent, (schedule epoch).externalVotePercent) :=
  if_neg (by simp [hout])

/-- A roster that is returned has the shares that are allotted. -/
theorem allotted_of_compute (hout : inRecovery network epoch = false)
    (hr : compute schedule network subComm (some epoch) = .ok (.ok r)) :
    Allotted (shares (schedule epoch) subComm.slots) subComm.slots r := by
  obtain ⟨stakes, hstakes, hr⟩ := Run.ok_of_bind hr
  obtain ⟨t, hloop, hr⟩ := Run.ok_of_bind hr
  obtain ⟨settled, hsettle, hr⟩ := Run.ok_of_bind hr
  obtain rfl := tallyStakes_eq_of_ok hstakes
  rw [percentages_eq hout] at hloop
  rw [hout] at hsettle
  have hmap := Except.ok.inj hr
  cases settled with
  | error err => cases hmap
  | ok t' =>
    obtain rfl := Except.ok.inj hmap
    have h := (foldlM_tallied hloop).giveDiff (giveDiff_of_settle hsettle)
    exact ⟨h.members, h.our, h.their, h.voters⟩

theorem exists_last (hstaked : ∃ slot ∈ slots, slot.isStaked) :
    ∃ before slot after, LastSlot slots before slot after := by
  induction slots with
  | nil => simp at hstaked
  | cons s slots ih =>
    by_cases hrest : ∃ slot ∈ slots, slot.isStaked
    · obtain ⟨before, slot, after, h⟩ := ih hrest
      exact ⟨s :: before, slot, after, by rw [h.eq]; rfl, h.staked, h.internal⟩
    · push Not at hrest
      obtain ⟨slot, hmem, hslot⟩ := hstaked
      rcases List.mem_cons.1 hmem with rfl | hmem
      · exact ⟨[], slot, slots, rfl, hslot, by simpa using hrest⟩
      · exact absurd hslot (by simpa using hrest slot hmem)

/-- The slots whose key is that of an earlier slot are allotted no power, the internal ones and the
    staked ones. -/
def LosesNothing (p : Shares N) (slots : List Slot) : Prop :=
  overall (internal (unlisted (p.allot slots))) = 0 ∧
    overall (external (unlisted (p.allot slots))) = 0

theorem Allotted.addsUp_iff (h : Allotted p slots r) (hone : overall (p.allot slots) = Dec.one) :
    r.AddsUp ↔ LosesNothing p slots := by
  have hperm : (r.votes.map Voter.share ++ unlisted (p.allot slots)).Perm (p.allot slots) :=
    (h.votes_perm.append_right _).trans (listed_append_unlisted _)
  have hour := overall_perm (hperm.filter fun s => s.isHarmonyNode)
  have htheir := overall_perm (hperm.filter fun s => !s.isHarmonyNode)
  rw [← internal, ← internal, internal_append, overall_append, ← h.our] at hour
  rw [← external, ← external, external_append, overall_append, ← h.their] at htheir
  rw [overall_split, ← h.our, ← h.their] at hone
  unfold LosesNothing
  constructor
  · intro hadds
    have hin := hadds.internal
    have hex := hadds.external
    omega
  · rintro ⟨hin, hex⟩
    refine ⟨?_, by omega, by omega⟩
    rw [overall_split]
    omega

/-- **Voting power adds up.**  Outside the recovery, the voters of a committee with a staked slot
    add up to one, and to the reported totals, exactly if the slots with the key of an earlier one
    are allotted no power; so they do if the keys are different. -/
theorem voters_addUp_iff (schedule : ℤ → Instance N Account) (network : NetworkType)
    (subComm : ShardCommittee) (epoch : ℤ) (r : Roster)
    (hout : inRecovery network epoch = false) (hstaked : ∃ slot ∈ subComm.slots, slot.isStaked)
    (hr : compute schedule network subComm (some epoch) = .ok (.ok r)) :
    (r.AddsUp ↔ LosesNothing (shares (schedule epoch) subComm.slots) subComm.slots) ∧
      ((subComm.slots.map Slot.blsPublicKey).Nodup → r.AddsUp) := by
  obtain ⟨before, slot, after, hlast⟩ := exists_last hstaked
  have hiff := (allotted_of_compute hout hr).addsUp_iff (Shares.overall_allot hlast)
  refine ⟨hiff, fun hkeys => hiff.2 ?_⟩
  rw [← Shares.allot_identity (shares (schedule epoch) subComm.slots)] at hkeys
  rw [LosesNothing, unlisted_eq_nil hkeys]
  exact ⟨rfl, rfl⟩

end Votepower

namespace Concrete

open Votepower

/-- Decimals that are rounded to the nearest unit, with the limit of 315 bits. -/
def numeric : Numeric where
  add d e := Dec.checked (2 ^ 255 * 2 ^ 60) (d.raw + e.raw)
  sub d e := Dec.checked (2 ^ 255 * 2 ^ 60) (d.raw - e.raw)
  mul d e := Dec.checked (2 ^ 255 * 2 ^ 60) ((2 * (d.raw * e.raw) + Dec.one) / (2 * Dec.one))
  quo d e :=
    if e.raw = 0 then .error .divisionByZero
    else Dec.checked (2 ^ 255 * 2 ^ 60) ((2 * (d.raw * Dec.one) + e.raw) / (2 * e.raw))
  limit := 2 ^ 255 * 2 ^ 60
  mulRaw a b := (2 * (a * b) + Dec.one) / (2 * Dec.one)
  quoRaw a b := (2 * (a * Dec.one) + b) / (2 * b)
  add_eq _ _ := rfl
  sub_eq _ _ := rfl
  mul_eq _ _ := rfl
  quo_eq _ _ h := if_neg h
  quo_zero _ _ h := if_pos h
  limit_large := by decide
  mulRaw_le_half a b _ _ := by
    have hle := Int.ediv_mul_le (2 * (a * b) + Dec.one) (b := 2 * Dec.one) (by decide)
    linarith
  lt_mulRaw_succ a b _ _ := by
    have hlt := Int.lt_ediv_add_one_mul_self (2 * (a * b) + Dec.one) (b := 2 * Dec.one) (by decide)
    have hone := Dec.one_pos
    linarith
  quoRaw_le_half a b _ hb := by
    have hle := Int.ediv_mul_le (2 * (a * Dec.one) + b) (b := 2 * b) (by omega)
    linarith
  lt_quoRaw_succ a b _ hb := by
    have hlt := Int.lt_ediv_add_one_mul_self (2 * (a * Dec.one) + b) (b := 2 * b) (by omega)
    linarith

/-- Half of the power for the internal slots, in every epoch. -/
def halfSchedule (_ : ℤ) : Instance numeric Unit where
  numShards := 1
  numNodesPerShard := 4
  numHarmonyOperatedNodesPerShard := 1
  harmonyVotePercent := ⟨500000000000000000⟩
  externalVotePercent := ⟨500000000000000000⟩
  hmyAccounts := []
  fnAccounts := []
  reshardingEpoch := []
  blocksPerEpoch := 16
  harmony_nonneg := by decide
  harmony_le_one := by decide
  external_eq := by decide

/-- A slot with a key and a stake. -/
def slotAt (k : UInt8) (stake : Option ℤ) : Slot :=
  ⟨zeroBytes 20, copyBytes 48 [k], stake.map fun n => ⟨n⟩⟩

/-- The roster of some slots in the first epoch of the main network. -/
def rosterOf (slots : List Slot) (h : slots.length < 2 ^ 63) : Option Roster :=
  (compute halfSchedule .mainnet ⟨0, slots, h⟩ (some 0)).toOption.bind Except.toOption

theorem compute_of_rosterOf {slots : List Slot} {h : slots.length < 2 ^ 63} {r : Roster}
    (hr : rosterOf slots h = some r) :
    compute halfSchedule .mainnet ⟨0, slots, h⟩ (some 0) = .ok (.ok r) := by
  unfold rosterOf at hr
  cases hc : compute halfSchedule .mainnet ⟨0, slots, h⟩ (some 0) with
  | error panic =>
    rw [hc] at hr
    cases hr
  | ok result =>
    rw [hc] at hr
    cases result with
    | error err => cases hr
    | ok r' =>
      obtain rfl := Option.some.inj hr
      rfl

/-- An internal slot and two staked ones. -/
def threeSlots : List Slot := [slotAt 1 none, slotAt 2 (some 1), slotAt 3 (some 3)]

def threeRoster : Roster := (rosterOf threeSlots (by decide)).get (by decide +kernel)

theorem threeRoster_addsUp : (threeSlots.map Slot.blsPublicKey).Nodup ∧ threeRoster.AddsUp := by
  have hkeys : (threeSlots.map Slot.blsPublicKey).Nodup := by decide +kernel
  have hr := compute_of_rosterOf (Option.some_get
    (show (rosterOf threeSlots (by decide)).isSome by decide +kernel)).symm
  exact ⟨hkeys, (voters_addUp_iff halfSchedule .mainnet ⟨0, threeSlots, by decide⟩ 0 threeRoster rfl
    ⟨slotAt 2 (some 1), by decide +kernel, rfl⟩ hr).2 hkeys⟩

/-- An internal slot and two staked ones with the same key. -/
def repeatedSlots : List Slot := [slotAt 1 none, slotAt 2 (some 1), slotAt 2 (some 1)]

def repeatedRoster : Roster := (rosterOf repeatedSlots (by decide)).get (by decide +kernel)

/-- The second of the slots with the same key has a quarter of the power, and no vote. -/
theorem voters_not_addUp :
    compute halfSchedule .mainnet ⟨0, repeatedSlots, by decide⟩ (some 0) =
        .ok (.ok repeatedRoster) ∧
      overall (repeatedRoster.votes.map Voter.share) = 750000000000000000 ∧
      Dec.one = 1000000000000000000 ∧ ¬ repeatedRoster.AddsUp := by
  have hr := compute_of_rosterOf (Option.some_get
    (show (rosterOf repeatedSlots (by decide)).isSome by decide +kernel)).symm
  have hsum : overall (repeatedRoster.votes.map Voter.share) = 750000000000000000 := by
    decide +kernel
  refine ⟨hr, hsum, rfl, fun h => ?_⟩
  have htotal := h.total
  rw [hsum] at htotal
  exact absurd htotal (by decide)

end Concrete

end Benzene
