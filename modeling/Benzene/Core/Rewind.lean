import Benzene.Core.ChainIndex

/-!
# The canonical index under rewinds

`SetHead` walks the header head down the path one header at a time and lets the block head
follow, which may go further down to a block that has its state.  The deletions are written when
the walk is over.

If the header at the target has its state, neither head passes it (`Indexed.rewindHeaders`), so
that both end there and the index is cut above it (`Represents.setHead`).
-/

namespace Benzene.BlockChain

variable {L : BlockChainLib} {known : Header → Prop} {bc bc' : BlockChain L} {path : List Header}
  {block block' : Block} {h : Header} {i j k fuel : ℕ}

/-! ## Heads on the path -/

theorem Indexed.toNat_of_getElem? (hi : Indexed known bc path) (hh : path[i]? = some h) :
    h.numberU64.toNat = i := by
  rw [hi.toNat_numberU64 (List.mem_of_getElem? hh)]
  exact hi.linked.number_eq hh

/-- Only the caches and the block heads change, and the caches keep what they are for. -/
structure Moved (known : Header → Prop) (bc bc' : BlockChain L) : Prop
    extends SameIndex known bc bc' where
  stateDb : bc'.stateDb = bc.stateDb
  headHeaderHash : bc'.db.headHeaderHash = bc.db.headHeaderHash
  lastCommitsCache : bc'.lastCommitsCache = bc.lastCommitsCache

theorem Recached.moved (hrec : Recached known bc bc') : Moved known bc bc' := by
  have hs := hrec.sound
  obtain ⟨_, _, _, rfl⟩ := hrec.eq
  exact ⟨⟨rfl, hs⟩, rfl, rfl, rfl⟩

theorem Moved.trans {bc₁ bc₂ : BlockChain L} (hm : Moved known bc bc₁)
    (hm' : Moved known bc₁ bc₂) : Moved known bc bc₂ :=
  ⟨⟨hm'.db.trans hm.db, hm'.sound ∘ hm.sound⟩, hm'.stateDb.trans hm.stateDb,
    hm'.headHeaderHash.trans hm.headHeaderHash, hm'.lastCommitsCache.trans hm.lastCommitsCache⟩

theorem Indexed.moved (hi : Indexed known bc path) (hm : Moved known bc bc') :
    Indexed known bc' path :=
  hi.congr hm.toSameIndex

/-- The header head is at place `k` of the path, and the block head at place `j`. -/
structure HeadsAt (bc : BlockChain L) (path : List Header) (k j : ℕ) : Prop where
  currentHeader : path[k]? = some bc.currentHeader
  currentBlock : path[j]? = some bc.currentBlock.header
  headHeaderHash : bc.db.headHeaderHash = L.headerHash bc.currentHeader
  headBlockHash : bc.db.headBlockHash = L.blockHash bc.currentBlock

/-- The header at a place has its state. -/
def StateAt (bc : BlockChain L) (path : List Header) (i : ℕ) : Prop :=
  ∀ h, path[i]? = some h → L.hasState bc.stateDb h.root = true

theorem StateAt.moved (hstate : StateAt bc path i) (hm : Moved known bc bc') :
    StateAt bc' path i :=
  fun h hh => hm.stateDb ▸ hstate h hh

/-! ## One step -/

/-- The parent of a header on the path, as `GetHeader` and `GetBlock` are asked for it. -/
theorem Indexed.parent (hi : Indexed known bc path) (hh : path[i + 1]? = some h) :
    ∃ p, path[i]? = some p ∧ h.parentHash = L.headerHash p ∧ h.numberU64 - 1 = p.numberU64 := by
  have hlt := (List.getElem?_eq_some_iff.1 hh).1
  obtain ⟨p, hp⟩ : ∃ p, path[i]? = some p := ⟨_, List.getElem?_eq_getElem (by omega)⟩
  refine ⟨p, hp, hi.linked.parent_eq hp hh, UInt64.toNat_inj.1 ?_⟩
  have hnum := hi.toNat_of_getElem? hh
  have hpred := toNat_sub_one_add_one (n := h.numberU64) (by omega)
  rw [hi.toNat_of_getElem? hp]
  omega

theorem Indexed.getBlock (hi : Indexed known bc path) (hapart : HashesApart L.headerHash known)
    (hh : path[i]? = some h) :
    ∃ bc₁ b, bc.getBlock (L.headerHash h) h.numberU64 = (bc₁, some b) ∧ b.header = h ∧
      Recached known bc bc₁ := by
  have hmem := List.mem_of_getElem? hh
  obtain ⟨b, hb, rfl⟩ := hi.sound.getBlock_held hapart (hi.known_of_mem h hmem) (hi.held h hmem)
  exact ⟨_, b, Prod.ext rfl hb, rfl, getBlock_recached bc _ _⟩

variable {t : ℕ} {db : ChainDb} {nums : List UInt64} {origin : Bool} {head : UInt64}

/-- The walk back to a block with its state ends at a block that has it. -/
theorem rewindToState_recached (hr : BlockChain.rewindToState fuel bc block = some (bc', block')) :
    Recached known bc bc' ∧ (Sound known bc → known block.header → known block'.header) ∧
      L.hasState bc.stateDb block'.header.root = true := by
  induction fuel generalizing bc block with
  | zero => cases hr
  | succ fuel ih =>
    rw [BlockChain.rewindToState] at hr
    split_ifs at hr with hhas
    · obtain ⟨rfl, rfl⟩ := Prod.mk.inj (Option.some.inj hr)
      exact ⟨.refl bc, fun _ => id, hhas⟩
    · have hrec : Recached known bc _ :=
        getBlock_recached bc block.header.parentHash (block.numberU64 - 1)
      cases heq : bc.getBlock block.header.parentHash (block.numberU64 - 1) with
      | mk bc₁ b? =>
        rw [heq] at hr hrec
        cases b? with
        | none => cases hr
        | some b =>
          obtain ⟨hrec', hk, hhas'⟩ := ih hr
          refine ⟨hrec.trans hrec', fun hs _ => ?_, ?_⟩
          · exact hk (hrec.sound hs) (hs.known_of_getBlock (congrArg Prod.snd heq)).1
          · obtain ⟨_, _, _, rfl⟩ := hrec.eq
            exact hhas'

/-- The walk back stays on the path and does not pass a header that has its state. -/
theorem Indexed.rewindToState (hi : Indexed known bc path) (hapart : HashesApart L.headerHash known)
    (hstate : StateAt bc path t) (ht : t ≤ i) (hblock : path[i]? = some block.header)
    (hr : BlockChain.rewindToState fuel bc block = some (bc', block')) :
    ∃ j, t ≤ j ∧ j ≤ i ∧ path[j]? = some block'.header := by
  induction fuel generalizing bc block i with
  | zero => cases hr
  | succ fuel ih =>
    rw [BlockChain.rewindToState] at hr
    split_ifs at hr with hhas
    · obtain ⟨rfl, rfl⟩ := Prod.mk.inj (Option.some.inj hr)
      exact ⟨i, ht, le_rfl, hblock⟩
    · -- the state is missing, so the place is above `t`, and the parent is on the path
      have hne : i ≠ t := by
        rintro rfl
        exact hhas (hstate _ hblock)
      obtain ⟨i, rfl⟩ : ∃ i', i = i' + 1 := ⟨i - 1, by omega⟩
      obtain ⟨p, hp, hhash, hnum⟩ := hi.parent hblock
      obtain ⟨bc₁, b, hget, rfl, hrec⟩ := hi.getBlock hapart hp
      rw [hhash, Block.numberU64, hnum, hget] at hr
      obtain ⟨j, hj, hji, hjb⟩ :=
        ih (hi.moved hrec.moved) (hstate.moved hrec.moved) (by omega) hp hr
      exact ⟨j, hj, by omega, hjb⟩

theorem updateHeadBlock_moved (hr : bc.updateHeadBlock h = some bc') : Moved known bc bc' := by
  rw [updateHeadBlock] at hr
  split_ifs at hr
  · have hrec : Recached known bc _ := getBlock_recached bc (L.headerHash h) h.numberU64
    obtain ⟨bc₁, b, hrec₁, rfl⟩ : ∃ bc₁ b, Recached known bc bc₁ ∧ bc' = { bc₁ with
        db := { bc₁.db with headBlockHash := L.blockHash b }, currentBlock := b } := by
      cases hget : bc.getBlock (L.headerHash h) h.numberU64 with
      | mk bc₁ b? =>
        rw [hget] at hrec
        simp only [hget] at hr
        cases b? with
        | none => exact ⟨_, _, hrec, (Option.some.inj hr).symm⟩
        | some b =>
          obtain ⟨⟨bc₂, b'⟩, hrewind, heq⟩ := Option.bind_eq_some_iff.1 hr
          exact ⟨bc₂, b', hrec.trans (rewindToState_recached hrewind).1,
            (Option.some.inj heq).symm⟩
    exact { hrec₁.moved with sound := fun h => (hrec₁.sound h).congr rfl }
  · obtain rfl := Option.some.inj hr
    exact (Recached.refl bc).moved

/-- The block head follows the header head to place `i`, or stays below it. -/
theorem Indexed.updateHeadBlock (hi : Indexed known bc path)
    (hapart : HashesApart L.headerHash known) (hstate : StateAt bc path t)
    (hheads : HeadsAt bc path k j) (hj : t ≤ j) (hh : path[i]? = some h) (ht : t ≤ i)
    (hr : bc.updateHeadBlock h = some bc') :
    bc'.db.headBlockHash = L.blockHash bc'.currentBlock ∧
      ∃ j', t ≤ j' ∧ j' ≤ i ∧ path[j']? = some bc'.currentBlock.header := by
  have hcurrent := hheads.currentBlock
  rw [BlockChain.updateHeadBlock] at hr
  split_ifs at hr with hle
  · obtain ⟨bc₁, b, hget, rfl, hrec⟩ := hi.getBlock hapart hh
    simp only [hget] at hr
    obtain ⟨⟨bc₂, b'⟩, hrewind, heq⟩ := Option.bind_eq_some_iff.1 hr
    obtain rfl := Option.some.inj heq
    exact ⟨rfl,
      (hi.moved hrec.moved).rewindToState hapart (hstate.moved hrec.moved) ht hh hrewind⟩
  · obtain rfl := Option.some.inj hr
    rw [Block.numberU64, UInt64.le_iff_toNat_le, hi.toNat_of_getElem? hh,
      hi.toNat_of_getElem? hcurrent] at hle
    exact ⟨hheads.headBlockHash, j, hj, by omega, hcurrent⟩

/-- The head of fast sync moves alone. -/
theorem updateFastBlock_moved (bc : BlockChain L) (h : Header) :
    Moved known bc (bc.updateFastBlock h) ∧
      (bc.updateFastBlock h).currentBlock = bc.currentBlock ∧
      (bc.updateFastBlock h).db.headBlockHash = bc.db.headBlockHash := by
  rw [BlockChain.updateFastBlock]
  split_ifs
  · have hrec : Recached known bc _ := getBlock_recached bc (L.headerHash h) h.numberU64
    obtain ⟨_, _, _, heq⟩ := hrec.eq
    refine ⟨{ hrec.moved with sound := fun h => (hrec.sound h).congr rfl }, ?_, ?_⟩
    all_goals simp only [heq]
  · exact ⟨(Recached.refl bc).moved, rfl, rfl⟩

theorem updateFn_moved (hr : bc.updateFn h = some bc') : Moved known bc bc' := by
  obtain ⟨bc₁, hupdate, heq⟩ := Option.bind_eq_some_iff.1 hr
  obtain rfl := Option.some.inj heq
  exact (updateHeadBlock_moved hupdate).trans (updateFastBlock_moved bc₁ h).1

theorem Indexed.updateFn (hi : Indexed known bc path) (hapart : HashesApart L.headerHash known)
    (hstate : StateAt bc path t) (hheads : HeadsAt bc path k j) (hj : t ≤ j)
    (hh : path[i]? = some h) (ht : t ≤ i) (hr : bc.updateFn h = some bc') :
    bc'.db.headBlockHash = L.blockHash bc'.currentBlock ∧
      ∃ j', t ≤ j' ∧ j' ≤ i ∧ path[j']? = some bc'.currentBlock.header := by
  obtain ⟨bc₁, hupdate, heq⟩ := Option.bind_eq_some_iff.1 hr
  obtain rfl := Option.some.inj heq
  obtain ⟨-, hcurrent, hhead⟩ : Moved known bc₁ _ ∧ _ := updateFastBlock_moved bc₁ h
  rw [hcurrent, hhead]
  exact hi.updateHeadBlock hapart hstate hheads hj hh ht hupdate

/-! ## Deletions -/

/-- Deletions of headers above place `t`, of which none is on the path up to there. -/
def Above (L : BlockChainLib) (known : Header → Prop) (t : ℕ)
    (batch : List (UInt64 × List Hash)) : Prop :=
  ∀ e ∈ batch, t < e.1.toNat ∧
    ∀ hash ∈ e.2, ∃ h, known h ∧ L.headerHash h = hash ∧ t < h.numberU64.toNat

/-- The numbers left over above the head, if none of them is the largest, do not wrap. -/
theorem leftovers_le {n : UInt64} {acc : List UInt64} (hr : leftovers db fuel n acc = some nums)
    (hmax : maxBlockNum ∉ nums) : acc ⊆ nums ∧ ∀ m ∈ nums, m ∈ acc ∨ n ≤ m := by
  induction fuel generalizing n acc with
  | zero => cases hr
  | succ fuel ih =>
    rw [leftovers] at hr
    split_ifs at hr
    · obtain rfl := Option.some.inj hr
      exact ⟨fun _ hm => hm, fun _ hm => Or.inl hm⟩
    · obtain ⟨hsub, hle⟩ := ih hr
      have hn : n ≠ maxBlockNum := by
        rintro rfl
        exact hmax (hsub List.mem_cons_self)
      refine ⟨fun m hm => hsub (List.mem_cons_of_mem _ hm), fun m hm => ?_⟩
      rcases hle m hm with hmem | hlt
      · rcases List.mem_cons.1 hmem with rfl | hmem
        · exact Or.inr (UInt64.le_refl m)
        · exact Or.inl hmem
      · exact Or.inr (UInt64.le_trans (le_add_one_of_ne_max hn) hlt)

/-- What is deleted with numbers above `t`, for a header above `t`. -/
theorem Sound.above_deletions (hs : Sound known bc) (hk : known h) (hh : t < h.numberU64.toNat)
    (hnums : ∀ n ∈ nums, t < n.toNat) : Above L known t (deletions (L := L) bc.db h nums) := by
  intro e he
  obtain ⟨n, hn, rfl⟩ := List.mem_map.1 he
  refine ⟨hnums n hn, fun hash hhash => ?_⟩
  simp only at hhash
  split_ifs at hhash with hempty
  · exact ⟨h, hk, (List.mem_singleton.1 hhash).symm, hh⟩
  · obtain ⟨⟨m, hash'⟩, hkey, rfl⟩ := List.mem_map.1 hhash
    obtain ⟨hkey, hm⟩ := List.mem_filter.1 hkey
    obtain ⟨h', hlookup⟩ := GoMap.mem_keys_iff.1 hkey
    obtain ⟨hk', hhash', hnum⟩ := hs.headers hlookup
    obtain rfl : m = n := of_decide_eq_true hm
    refine ⟨h', hk', hhash', ?_⟩
    rw [hnum]
    exact hnums m hn

/-! ## The walk -/

/-- The numbers above the head that the first pass deletes too. -/
def leftoversFrom (db : ChainDb) (origin : Bool) (n : UInt64) : Option (List UInt64) :=
  if origin then leftovers db chainFuel n [] else some []

theorem lt_leftoversFrom {n : UInt64} (hr : leftoversFrom db origin (n + 1) = some nums)
    (hmax : maxBlockNum ∉ nums) (hn : n ≠ maxBlockNum) : ∀ m ∈ nums, n < m := by
  intro m hm
  cases origin with
  | false =>
    obtain rfl := Option.some.inj hr
    cases hm
  | true =>
    rcases (leftovers_le hr hmax).2 m hm with hmem | hle
    · cases hmem
    · exact UInt64.lt_of_lt_of_le (lt_add_one_of_ne_max hn) hle

/-- One pass of the loop of `HeaderChain.SetHead`: the chain with the heads moved to the parent,
    and the deletions. -/
def rewindHeader (bc : BlockChain L) (origin : Bool) :
    Option (BlockChain L × List (UInt64 × List Hash)) := do
  let header := bc.currentHeader
  let num := header.numberU64
  let r := bc.getHeader header.parentHash (num - 1)
  let parent := r.2.getD bc.genesisHeader
  let bc ← r.1.updateFn parent
  let bc := { bc with
    db := { bc.db with headHeaderHash := header.parentHash }
    currentHeader := parent }
  let above ← leftoversFrom bc.db origin (num + 1)
  if maxBlockNum ∈ above ++ [num] then none
  else some (bc, deletions (L := L) bc.db header (above ++ [num]))

theorem rewindHeaders_succ (head : UInt64) (bc : BlockChain L) (origin : Bool)
    (batch : List (UInt64 × List Hash)) :
    rewindHeaders head (fuel + 1) bc origin batch =
      if head < bc.currentHeader.numberU64 then
        (bc.rewindHeader origin).bind fun r => rewindHeaders head fuel r.1 false (batch ++ r.2)
      else some (bc, batch) := by
  rw [rewindHeaders]
  refine if_congr Iff.rfl ?_ rfl
  simp only [rewindHeader, Option.bind_eq_bind, Option.bind_assoc]
  refine Option.bind_congr fun bc₁ _ => ?_
  cases origin with
  | false =>
    simp only [leftoversFrom, Bool.false_eq_true, if_false, Option.bind_some]
    split_ifs <;> rfl
  | true =>
    simp only [leftoversFrom, if_true]
    refine Option.bind_congr fun above _ => ?_
    split_ifs <;> rfl

/-- A pass moves the header head to its parent, and the block head not above it nor past a header
    that has its state; the deletions have the number that is left. -/
theorem Indexed.rewindHeader (hi : Indexed known bc path) (hapart : HashesApart L.headerHash known)
    (hstate : StateAt bc path t) (hheads : HeadsAt bc path (k + 1) j) (hj : t ≤ j) (hk : t ≤ k)
    {r : BlockChain L × List (UInt64 × List Hash)} (hr : bc.rewindHeader origin = some r) :
    Indexed known r.1 path ∧ StateAt r.1 path t ∧ Above L known t r.2 ∧
      (∃ e ∈ r.2, e.1.toNat = k + 1) ∧ ∃ j', t ≤ j' ∧ j' ≤ k ∧ HeadsAt r.1 path k j' := by
  have hheader := hheads.currentHeader
  have hnum := hi.toNat_of_getElem? hheader
  have hknown := hi.known_of_mem _ (List.mem_of_getElem? hheader)
  obtain ⟨p, hp, hhash, hpnum⟩ := hi.parent hheader
  have hpmem := List.mem_of_getElem? hp
  -- the parent is read
  have hget : (bc.getHeader bc.currentHeader.parentHash (bc.currentHeader.numberU64 - 1)).2 =
      some p := by
    rw [hhash, hpnum]
    exact hi.sound.getHeader_stored hapart (hi.held p hpmem).header
  have hm₀ : Moved known bc _ := (getHeader_recached bc bc.currentHeader.parentHash
    (bc.currentHeader.numberU64 - 1)).moved
  simp only [BlockChain.rewindHeader, hget, Option.getD_some] at hr
  obtain ⟨bc₁, hupdate, hr⟩ := Option.bind_eq_some_iff.1 hr
  obtain ⟨above, hleft, hr⟩ := Option.bind_eq_some_iff.1 hr
  split_ifs at hr with hmax
  obtain rfl := Option.some.inj hr
  -- the block head follows
  have hm₁ := hm₀.trans (updateFn_moved hupdate)
  obtain ⟨hblockHash, j', hj', hjk, hblock⟩ :=
    (hi.moved hm₀).updateFn hapart (hstate.moved hm₀)
      ⟨hheader, hheads.currentBlock, hheads.headHeaderHash, hheads.headBlockHash⟩ hj hp hk hupdate
  have hi₁ := hi.moved hm₁
  have hstate₁ := hstate.moved hm₁
  refine ⟨hi₁.congr ⟨rfl, fun hs => hs.congr rfl⟩, hstate₁, ?_, ?_, j', hj', hjk, hp, hblock,
    hhash, hblockHash⟩
  · refine hi₁.sound.above_deletions hknown (by omega) fun n hn => ?_
    rw [List.mem_append, List.mem_singleton] at hmax hn
    rw [not_or] at hmax
    rcases hn with hn | rfl
    · have hlt := lt_leftoversFrom hleft hmax.1 (Ne.symm hmax.2) n hn
      rw [UInt64.lt_iff_toNat_lt] at hlt
      omega
    · omega
  · refine ⟨_, List.mem_map.2 ⟨bc.currentHeader.numberU64, by simp, rfl⟩, hnum⟩

/-- Every place above `k` on the path is among the deletions. -/
def Covers (path : List Header) (k : ℕ) (batch : List (UInt64 × List Hash)) : Prop :=
  ∀ m, k < m → m < path.length → ∃ e ∈ batch, e.1.toNat = m

/-- The walk of the header head, by induction on its steps: it stays on the path, the block head
    is never above it and neither passes the target, and every header it leaves is deleted. -/
theorem Indexed.rewindHeaders (hi : Indexed known bc path) (hapart : HashesApart L.headerHash known)
    (hstate : StateAt bc path head.toNat) (hheads : HeadsAt bc path k j) (hj : head.toNat ≤ j)
    (hjk : j ≤ k) {batch batch' : List (UInt64 × List Hash)}
    (habove : Above L known head.toNat batch) (hcovers : Covers path k batch)
    (hr : BlockChain.rewindHeaders head fuel bc origin batch = some (bc', batch')) :
    Indexed known bc' path ∧ HeadsAt bc' path head.toNat head.toNat ∧
      Above L known head.toNat batch' ∧ Covers path head.toNat batch' := by
  induction fuel generalizing bc k j origin batch with
  | zero => cases hr
  | succ fuel ih =>
    rw [rewindHeaders_succ] at hr
    split_ifs at hr with hlt
    all_goals rw [UInt64.lt_iff_toNat_lt, hi.toNat_of_getElem? hheads.currentHeader] at hlt
    · obtain ⟨k, rfl⟩ : ∃ k', k = k' + 1 := ⟨k - 1, by omega⟩
      obtain ⟨⟨bc₁, dels⟩, hstep, hr⟩ := Option.bind_eq_some_iff.1 hr
      obtain ⟨hi₁, hstate₁, hdels, ⟨e, he, hek⟩, j', hj', hjk', hheads₁⟩ :=
        hi.rewindHeader hapart hstate hheads hj (by omega) hstep
      refine ih hi₁ hstate₁ hheads₁ hj' hjk' ?_ ?_ hr
      · intro e he
        exact (List.mem_append.1 he).elim (habove e) (hdels e)
      · intro m hm hlen
        rcases Nat.lt_or_ge (k + 1) m with hlt | hge
        · obtain ⟨e, he, hem⟩ := hcovers m hlt hlen
          exact ⟨e, List.mem_append_left _ he, hem⟩
        · exact ⟨e, List.mem_append_right _ he, by omega⟩
    · obtain ⟨rfl, rfl⟩ := Prod.mk.inj (Option.some.inj hr)
      obtain rfl : k = head.toNat := by omega
      obtain rfl : j = head.toNat := by omega
      exact ⟨hi, hheads, habove, hcovers⟩

/-! ## The cut -/

/-- What deletions leave of a database: no new entries, and the heads. -/
structure Pruned (db db' : ChainDb) : Prop where
  headers : ∀ {key h}, db'.headers.lookup key = some h → db.headers.lookup key = some h
  headerNumbers : ∀ {hash n}, db'.headerNumbers.lookup hash = some n →
    db.headerNumbers.lookup hash = some n
  headBlockHash : db'.headBlockHash = db.headBlockHash
  headHeaderHash : db'.headHeaderHash = db.headHeaderHash

theorem Pruned.refl (db : ChainDb) : Pruned db db := ⟨id, id, rfl, rfl⟩

theorem Pruned.trans {db₁ db₂ : ChainDb} (hp : Pruned db db₁) (hp' : Pruned db₁ db₂) :
    Pruned db db₂ :=
  ⟨fun hl => hp.headers (hp'.headers hl), fun hl => hp.headerNumbers (hp'.headerNumbers hl),
    hp'.headBlockHash.trans hp.headBlockHash, hp'.headHeaderHash.trans hp.headHeaderHash⟩

/-- A header and its body are deleted. -/
def deleteBlock (db : ChainDb) (hash : Hash) (number : UInt64) : ChainDb :=
  (db.deleteBody hash number).deleteHeader hash number

theorem pruned_deleteBlock (db : ChainDb) (hash : Hash) (number : UInt64) :
    Pruned db (deleteBlock db hash number) :=
  ⟨fun hl => (GoMap.of_lookup_erase hl).2, fun hl => (GoMap.of_lookup_erase hl).2, rfl, rfl⟩

theorem Held.deleteBlock (hheld : db.Held L.toChainLib h) {hash : Hash}
    (hne : hash ≠ L.headerHash h) (number : UInt64) :
    (deleteBlock db hash number).Held L.toChainLib h := by
  have hkey : (h.numberU64, L.headerHash h) ≠ (number, hash) := fun heq =>
    hne (Prod.mk.inj heq).2.symm
  exact ⟨(AList.lookup_erase_ne hkey).trans hheld.header,
    hheld.body.imp fun _ hbody => (AList.lookup_erase_ne hkey).trans hbody,
    (AList.lookup_erase_ne hne.symm).trans hheld.number⟩

/-- The headers of one number are deleted, one after the other. -/
theorem deleteBlocks_spec (hashes : List Hash) (db : ChainDb) (number : UInt64) :
    let db' := hashes.foldl (fun db hash => deleteBlock db hash number) db
    Pruned db db' ∧ db'.canonical = db.canonical ∧
      ∀ h, db.Held L.toChainLib h → (∀ hash ∈ hashes, hash ≠ L.headerHash h) →
        db'.Held L.toChainLib h := by
  induction hashes generalizing db with
  | nil => exact ⟨.refl db, rfl, fun _ hheld _ => hheld⟩
  | cons hash hashes ih =>
    obtain ⟨hp, hcanonical, hheld⟩ := ih (deleteBlock db hash number)
    refine ⟨(pruned_deleteBlock db hash number).trans hp, hcanonical, fun h hh hne => ?_⟩
    exact hheld h (Held.deleteBlock hh (hne hash List.mem_cons_self) number) fun hash' hmem =>
      hne hash' (List.mem_cons_of_mem _ hmem)

/-- A batch of deletions is applied: the index loses its numbers, and what is held stays held
    unless its hash is among them. -/
theorem deleteBatch_spec (batch : List (UInt64 × List Hash)) (db : ChainDb) :
    Pruned db (batch.foldl deleteNumber db) ∧
      (∀ n, (batch.foldl deleteNumber db).canonical.lookup n =
        if n ∈ batch.map Prod.fst then none else db.canonical.lookup n) ∧
      ∀ h, db.Held L.toChainLib h → (∀ e ∈ batch, ∀ hash ∈ e.2, hash ≠ L.headerHash h) →
        (batch.foldl deleteNumber db).Held L.toChainLib h := by
  induction batch generalizing db with
  | nil => exact ⟨.refl db, fun n => by simp, fun _ hheld _ => hheld⟩
  | cons e batch ih =>
    obtain ⟨hp, hcanonical, hheld⟩ := ih (deleteNumber db e)
    obtain ⟨hp₁, hcanonical₁, hheld₁⟩ := deleteBlocks_spec (L := L) e.2 db e.1
    have hp₂ : Pruned db (deleteNumber db e) :=
      ⟨hp₁.headers, hp₁.headerNumbers, hp₁.headBlockHash, hp₁.headHeaderHash⟩
    refine ⟨hp₂.trans hp, fun n => ?_, fun h hh hne => ?_⟩
    · have herase : (deleteNumber db e).canonical = db.canonical.erase e.1 :=
        congrArg (AList.erase e.1) hcanonical₁
      rw [List.foldl_cons, hcanonical, herase, GoMap.lookup_erase_eq]
      by_cases hn : n = e.1 <;> by_cases hmem : n ∈ batch.map Prod.fst <;> simp [hn, hmem]
    · have hh₁ := hheld₁ h hh fun hash hhash => hne e List.mem_cons_self hash hhash
      exact hheld h ⟨hh₁.header, hh₁.body, hh₁.number⟩ fun e' he' =>
        hne e' (List.mem_cons_of_mem _ he')

section

variable (hi : Indexed known bc path)

include hi

/-- Deletions above place `t` that cover the path cut it there. -/
theorem Indexed.deleteBatch (hapart : HashesApart L.headerHash known)
    {batch : List (UInt64 × List Hash)} (habove : Above L known t batch)
    (hcovers : Covers path t batch) :
    Indexed known { bc with
      db := batch.foldl deleteNumber bc.db
      headerCache := bc.headerCache.purge
      numberCache := bc.numberCache.purge } (path.take (t + 1)) := by
  obtain ⟨hp, hcanonical, hheld⟩ := deleteBatch_spec (L := L) batch bc.db
  exact
    { sound :=
        ⟨fun hl => hi.sound.headers (hp.headers hl),
          fun hl => hi.sound.headerNumbers (hp.headerNumbers hl), .purge _ _, .purge _ _,
          hi.sound.blockCache⟩
      linked := hi.linked.take _
      length_le := (List.length_take_le' _ _).trans hi.length_le
      known_of_mem := fun h hh => hi.known_of_mem h (List.mem_of_mem_take hh)
      held := by
        intro h hh
        obtain ⟨i, hget⟩ := List.mem_iff_getElem?.1 hh
        have hlt := (List.getElem?_eq_some_iff.1 hget).1
        rw [List.length_take] at hlt
        have hget' := Linked.getElem?_of_take hget
        have hmem := List.mem_of_getElem? hget'
        refine hheld h (hi.held h hmem) fun e he hash hhash heq => ?_
        -- a header of this hash is the one on the path, which is not above `t`
        obtain ⟨h', hk', hhash', hlt'⟩ := (habove e he).2 hash hhash
        obtain rfl := hapart h' h hk' (hi.known_of_mem h hmem) (hhash'.trans heq)
        rw [hi.toNat_of_getElem? hget'] at hlt'
        omega
      canonical := by
        intro n
        rw [hcanonical]
        split_ifs with hmem
        · obtain ⟨e, he, rfl⟩ := List.mem_map.1 hmem
          have hlt := (habove e he).1
          rw [List.getElem?_eq_none (by rw [List.length_take]; omega)]
          rfl
        · rw [hi.canonical]
          rcases Nat.lt_or_ge t n.toNat with hlt | hge
          · have hlen : path.length ≤ n.toNat := by
              by_contra hlt'
              obtain ⟨e, he, heq⟩ := hcovers n.toNat hlt (by omega)
              exact hmem (List.mem_map.2 ⟨e, he, UInt64.toNat_inj.1 heq⟩)
            rw [List.getElem?_eq_none hlen, List.getElem?_eq_none
              (by rw [List.length_take]; omega)]
          · rw [List.getElem?_take_of_lt (by omega)] }

/-! ## Loading the heads -/

/-- The number of a header on the path. -/
theorem Indexed.getBlockNumber (hapart : HashesApart L.headerHash known) (hh : h ∈ path) :
    ∃ bc₁, bc.getBlockNumber (L.headerHash h) = (bc₁, some h.numberU64) ∧ Recached known bc bc₁ ∧
      Indexed known bc₁ path := by
  have hget := hi.sound.getBlockNumber_held hapart (hi.known_of_mem h hh) (hi.held h hh)
  have hrec : Recached known bc _ := getBlockNumber_recached bc (L.headerHash h)
  exact ⟨_, Prod.ext rfl hget, hrec, hi.moved hrec.moved⟩

theorem Indexed.getBlockByHash (hapart : HashesApart L.headerHash known) (hh : h ∈ path) :
    ∃ bc₁ b, bc.getBlockByHash (L.headerHash h) = (bc₁, some b) ∧ b.header = h ∧
      Recached known bc bc₁ ∧ Indexed known bc₁ path := by
  obtain ⟨bc₁, hnumber, hrec₁, hi₁⟩ := hi.getBlockNumber hapart hh
  obtain ⟨i, hget⟩ := List.mem_iff_getElem?.1 hh
  obtain ⟨bc₂, b, hblock, hb, hrec₂⟩ := hi₁.getBlock hapart hget
  refine ⟨bc₂, b, ?_, hb, hrec₁.trans hrec₂, hi₁.moved hrec₂.moved⟩
  simp only [BlockChain.getBlockByHash, hnumber, hblock]

theorem Indexed.getHeaderByHash (hapart : HashesApart L.headerHash known) (hh : h ∈ path) :
    ∃ bc₁, bc.getHeaderByHash (L.headerHash h) = (bc₁, some h) ∧ Recached known bc bc₁ ∧
      Indexed known bc₁ path := by
  obtain ⟨bc₁, hnumber, hrec₁, hi₁⟩ := hi.getBlockNumber hapart hh
  have hget := hi₁.sound.getHeader_stored hapart (hi₁.held h hh).header
  have hrec₂ : Recached known bc₁ _ := getHeader_recached bc₁ (L.headerHash h) h.numberU64
  refine ⟨_, ?_, hrec₁.trans hrec₂, hi₁.moved hrec₂.moved⟩
  simp only [BlockChain.getHeaderByHash, hnumber]
  exact Prod.ext rfl hget

end

/-- `loadLastState` with the head block: the head header. -/
def loadHeader (bc : BlockChain L) (block : Block) : BlockChain L :=
  let bc := { bc with currentBlock := block }
  let r := if bc.db.headHeaderHash = zeroHash then (bc, none)
    else bc.getHeaderByHash bc.db.headHeaderHash
  r.1.setCurrentHeader (r.2.getD block.header)

/-- `loadLastState` with the head block: the head of fast sync. -/
def loadFastBlock (bc : BlockChain L) (block : Block) : BlockChain L :=
  let bc := { bc with currentFastBlock := block }
  let r := if bc.db.headFastBlockHash = zeroHash then (bc, none)
    else bc.getBlockByHash bc.db.headFastBlockHash
  { r.1 with currentFastBlock := r.2.getD block }

theorem loadLastState_eq (bc : BlockChain L) :
    bc.loadLastState =
      if bc.db.headBlockHash = zeroHash then none
      else
        match bc.getBlockByHash bc.db.headBlockHash with
        | (_, none) => none
        | (bc, some block) => some ((bc.loadHeader block).loadFastBlock block) := rfl

theorem Indexed.loadHeader (hi : Indexed known bc path) (hapart : HashesApart L.headerHash known)
    (hlast : path.getLast? = some block.header)
    (hblockHash : bc.db.headBlockHash = L.blockHash block)
    (hheaderHash : bc.db.headHeaderHash = L.blockHash block) :
    Represents known (bc.loadHeader block) path := by
  have hi₁ : Indexed known { bc with currentBlock := block } path :=
    hi.congr ⟨rfl, fun hs => hs.congr rfl⟩
  obtain ⟨bc₂, hheader, hrec, hi₂⟩ := hi₁.getHeaderByHash hapart (List.mem_of_getLast? hlast)
  have hne : L.blockHash block ≠ zeroHash := L.headerHash_ne_zero block.header
  simp only [BlockChain.loadHeader, hheaderHash]
  rw [if_neg hne, ChainLib.blockHash, hheader]
  obtain ⟨_, _, _, rfl⟩ := hrec.eq
  exact ⟨hi₂.congr ⟨rfl, fun hs => hs.congr rfl⟩, hlast, rfl, hblockHash, rfl⟩

theorem Represents.loadFastBlock (hr : Represents known bc path) (block : Block) :
    Represents known (bc.loadFastBlock block) path := by
  have hr₁ : Represents known { bc with currentFastBlock := block } path :=
    hr.congr ⟨rfl, fun hs => hs.congr rfl⟩ rfl
  rw [BlockChain.loadFastBlock]
  dsimp only
  split_ifs
  · exact hr₁
  · exact (hr₁.recached (getBlockByHash_recached _ bc.db.headFastBlockHash)).congr
      ⟨rfl, fun hs => hs.congr rfl⟩ rfl

/-- With both head hashes those of the last header of the path, the heads are loaded from it. -/
theorem Indexed.loadLastState (hi : Indexed known bc path)
    (hapart : HashesApart L.headerHash known) (hlast : path.getLast? = some h)
    (hblockHash : bc.db.headBlockHash = L.headerHash h)
    (hheaderHash : bc.db.headHeaderHash = L.headerHash h) (hr : bc.loadLastState = some bc') :
    Represents known bc' path := by
  obtain ⟨bc₁, b, hblock, rfl, hrec, hi₁⟩ :=
    hi.getBlockByHash hapart (List.mem_of_getLast? hlast)
  rw [loadLastState_eq, hblockHash, if_neg (L.headerHash_ne_zero _), hblock] at hr
  obtain rfl := Option.some.inj hr
  obtain ⟨_, _, _, rfl⟩ := hrec.eq
  exact (hi₁.loadHeader hapart hlast hblockHash hheaderHash).loadFastBlock b

/-! ## `SetHead` -/

/-- Without its block cache and future blocks. -/
def purgeBlocks (bc : BlockChain L) : BlockChain L :=
  { bc with blockCache := bc.blockCache.purge, futureBlocks := bc.futureBlocks.purge }

theorem Indexed.purgeBlocks (hi : Indexed known bc path) : Indexed known bc.purgeBlocks path :=
  hi.congr ⟨rfl, fun hs => { hs with blockCache := .purge _ _ }⟩

theorem setHead_eq (bc : BlockChain L) (head : UInt64) :
    bc.setHead head =
      (if bc.currentBlock.numberU64 = head then bc.updateFn bc.currentBlock.header
      else bc.setHeadHeader head).bind fun bc => bc.purgeBlocks.loadLastState := by
  rw [setHead]
  split_ifs <;> rfl

section

variable (hr : Represents known bc path)

include hr

theorem Represents.headsAt :
    HeadsAt bc path bc.currentBlock.numberU64.toNat bc.currentBlock.numberU64.toNat := by
  have hget : path[bc.currentBlock.numberU64.toNat]? = some bc.currentBlock.header := by
    rw [Block.numberU64, hr.toNat_numberU64 hr.currentBlock_mem]
    exact hr.linked.getElem?_number hr.currentBlock_mem
  exact ⟨by rw [hr.currentHeader, hget], hget, by rw [hr.headHeaderHash, hr.currentHeader]; rfl,
    hr.headBlockHash⟩

/-- A target above the head leaves the database alone. -/
theorem Represents.setHeadHeader_of_lt (hlt : bc.currentBlock.numberU64 < head)
    (h : bc.setHeadHeader head = some bc') : Indexed known bc' path ∧ bc'.db = bc.db := by
  have hstop : ¬ head < bc.currentHeader.numberU64 := by
    rw [hr.currentHeader]
    exact UInt64.not_lt.2 (UInt64.le_of_lt hlt)
  rw [setHeadHeader, chainFuel_eq, rewindHeaders_succ, if_neg hstop] at h
  obtain rfl := Option.some.inj h
  exact ⟨hr.toIndexed.congr ⟨rfl, fun hs =>
    { hs with headerCache := .purge _ _, numberCache := .purge _ _ }⟩, rfl⟩

/-- A target up to the head that has its state becomes the head. -/
theorem Represents.setHeadHeader_of_le (hapart : HashesApart L.headerHash known)
    (hle : head ≤ bc.currentBlock.numberU64) (hstate : StateAt bc path head.toNat)
    (h : bc.setHeadHeader head = some bc') :
    ∃ header, Indexed known bc' (path.take (head.toNat + 1)) ∧
      (path.take (head.toNat + 1)).getLast? = some header ∧
      bc'.db.headBlockHash = L.headerHash header ∧
      bc'.db.headHeaderHash = L.headerHash header := by
  rw [UInt64.le_iff_toNat_le] at hle
  have hlen := hr.toNat_head
  obtain ⟨⟨bc₁, batch⟩, hrewind, heq⟩ := Option.bind_eq_some_iff.1 h
  obtain rfl := Option.some.inj heq
  obtain ⟨hi₁, hheads, habove, hcovers⟩ := hr.toIndexed.rewindHeaders hapart hstate hr.headsAt hle
    le_rfl (fun e he => by cases he) (fun m hm hlt => by omega) hrewind
  have hp := (deleteBatch_spec (L := L) batch bc₁.db).1
  have hsame : bc₁.currentBlock.header = bc₁.currentHeader :=
    Option.some.inj (hheads.currentBlock.symm.trans hheads.currentHeader)
  refine ⟨bc₁.currentHeader, hi₁.deleteBatch hapart habove hcovers, ?_, ?_, ?_⟩
  · rw [List.getLast?_eq_getElem?, List.length_take, Nat.min_eq_left (by omega),
      Nat.add_sub_cancel, List.getElem?_take_of_lt (by omega)]
    exact hheads.currentHeader
  · rw [← hsame]
    exact hp.headBlockHash.trans hheads.headBlockHash
  · exact hp.headHeaderHash.trans hheads.headHeaderHash

/-- A rewind to a number whose canonical header, if there is one, has its state keeps a path. -/
theorem Represents.setHead (hapart : HashesApart L.headerHash known)
    (hstate : StateAt bc path head.toNat) (h : bc.setHead head = some bc') :
    ∃ path', Represents known bc' path' := by
  rw [setHead_eq] at h
  obtain ⟨bc₁, hmove, hload⟩ := Option.bind_eq_some_iff.1 h
  split_ifs at hmove with heq
  · -- the heads stay where they are, on a block that has its state
    subst heq
    have hheads := hr.headsAt
    have hm : Moved known bc bc₁ := updateFn_moved hmove
    obtain ⟨hblockHash, j, hj, hji, hblock⟩ :=
      hr.toIndexed.updateFn hapart hstate hheads le_rfl hheads.currentBlock le_rfl hmove
    obtain rfl := Nat.le_antisymm hj hji
    have hsame := Option.some.inj (hblock.symm.trans hheads.currentBlock)
    have hi₁ := hr.toIndexed.moved hm
    refine ⟨path, hi₁.purgeBlocks.loadLastState hapart hr.currentBlock ?_ ?_ hload⟩
    · rw [← hsame]
      exact hblockHash
    · exact hm.headHeaderHash.trans hr.headHeaderHash
  · rcases UInt64.lt_or_le bc.currentBlock.numberU64 head with hlt | hle
    · obtain ⟨hi₁, hdb⟩ := hr.setHeadHeader_of_lt hlt hmove
      have hblockHash : bc₁.db.headBlockHash = L.blockHash bc.currentBlock := by
        rw [hdb, hr.headBlockHash]
      have hheaderHash : bc₁.db.headHeaderHash = L.blockHash bc.currentBlock := by
        rw [hdb, hr.headHeaderHash]
      exact ⟨path, hi₁.purgeBlocks.loadLastState hapart hr.currentBlock hblockHash hheaderHash
        hload⟩
    · obtain ⟨header, hi₁, hlast, hblockHash, hheaderHash⟩ :=
        hr.setHeadHeader_of_le hapart hle hstate hmove
      exact ⟨_, hi₁.purgeBlocks.loadLastState hapart hlast hblockHash hheaderHash hload⟩

end

end Benzene.BlockChain
