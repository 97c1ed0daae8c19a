import Benzene.Common.Ancestry
import Benzene.Core.PoolInvariant

/-!
# The transactions of a reorganisation

When the head moves from one branch of the block tree to another, `reset`
(core/tx_pool.go:1100-1162) walks back from both heads to their common ancestor and puts the
transactions of the old branch that are not on the new one back into the pool.

* `walkDown_eq`, `walkCommon_eq`: the loops collect each branch once, and end;
* `reinject_found_iff`: the blocks that the walk needs;
* `reinject_exact_iff`: what is put back.  The walk is left out when the distance of the two
  numbers, computed in `float64`, is more than 64; beyond `2 ^ 53` that is not the distance.
-/

namespace Benzene

namespace PoolChain

variable {chain : PoolChain} {b p : Block}

/-- The block is in the database. -/
def Stored (chain : PoolChain) (b : Block) : Prop :=
  chain.getBlock (chain.headerHash b.header) b.numberU64 = some b

instance : Decidable (chain.Stored b) := inferInstanceAs (Decidable (_ = _))

/-- The parent of a block, if it is there. -/
def parent (chain : PoolChain) (b : Block) : Option Block :=
  chain.getBlock b.header.parentHash (b.numberU64 - 1)

/-- The blocks are a tree. -/
structure IsTree (chain : PoolChain) : Prop where
  /-- A block is found under its own hash and number. -/
  keyed : ∀ {h n b}, chain.getBlock h n = some b →
    chain.headerHash b.header = h ∧ b.numberU64 = n
  /-- The hash tells the blocks apart. -/
  unique : ∀ {b b'}, chain.Stored b → chain.Stored b' →
    chain.headerHash b.header = chain.headerHash b'.header → b = b'
  /-- A block has the number after that of its parent. -/
  numbered : ∀ {b p}, chain.Stored b → chain.Stored p →
    chain.headerHash p.header = b.header.parentHash → p.header.number + 1 = b.header.number

theorem IsTree.stored (h : chain.IsTree) {hash : Hash} {n : UInt64}
    (hget : chain.getBlock hash n = some b) : chain.Stored b := by
  obtain ⟨hhash, hnumber⟩ := h.keyed hget
  rw [Stored, hhash, hnumber]
  exact hget

theorem IsTree.descends (h : chain.IsTree) :
    Descends chain.parent (fun b => b.header.number) chain.Stored := fun _ _ hb hparent =>
  ⟨h.stored hparent, h.numbered hb (h.stored hparent) (h.keyed hparent).1⟩

end PoolChain

namespace TxPool

variable {C : Crypto} {chain : PoolChain} {b b' rem add anc : Block} {bs old new : List Block}
  {req : ResetRequest}

theorem toNat_numberU64 (h : b.header.number < 2 ^ 64) : b.numberU64.toNat = b.header.number :=
  UInt64.toNat_ofNat_of_lt' h

/-! ## The loops -/

/-- The first loops go down to the number of the other block. -/
theorem walkDown_eq (htree : chain.IsTree) (h : Branch chain.parent b bs anc)
    (hb : chain.Stored b) (hfits : b.header.number < 2 ^ 64) {target : UInt64}
    (hle : anc.header.number ≤ target.toNat) {fuel : ℕ} (hfuel : bs.length < fuel)
    {t : List Transaction} :
    ∃ b', walkDown chain target fuel b t = some (.found (b',
        t ++ (bs.take (b.header.number - target.toNat)).flatMap Block.transactions)) ∧
      Branch chain.parent b' (bs.drop (b.header.number - target.toNat)) anc ∧ chain.Stored b' ∧
      b'.header.number = min b.header.number target.toNat := by
  induction h generalizing fuel t with
  | root b =>
    obtain ⟨fuel, rfl⟩ : ∃ k, fuel = k + 1 := ⟨fuel - 1, by omega⟩
    have hstop : ¬ target < b.numberU64 := by
      rw [UInt64.lt_iff_toNat_lt, toNat_numberU64 hfits]
      omega
    refine ⟨b, ?_, ?_, hb, by omega⟩
    · simp [walkDown, hstop]
    · simpa using Branch.root b
  | @step b p anc bs hparent h ih =>
    obtain ⟨fuel, rfl⟩ : ∃ k, fuel = k + 1 := ⟨fuel - 1, by omega⟩
    obtain ⟨hp, hheight⟩ := htree.descends _ _ hb hparent
    dsimp only at hheight
    rw [List.length_cons] at hfuel
    have hgo : target < b.numberU64 ↔ target.toNat < b.header.number := by
      rw [UInt64.lt_iff_toNat_lt, toNat_numberU64 hfits]
    by_cases hlt : target.toNat < b.header.number
    · obtain ⟨b', hwalk, hbranch, hb', hmin⟩ :=
        ih (t := t ++ b.transactions) hp (by omega) hle (by omega : bs.length < fuel)
      have hcount : b.header.number - target.toNat = (p.header.number - target.toNat) + 1 := by
        omega
      refine ⟨b', ?_, ?_, hb', by omega⟩
      · have hget : chain.getBlock b.header.parentHash (b.numberU64 - 1) = some p := hparent
        rw [walkDown, if_pos (hgo.2 hlt), hget]
        simp only [hwalk, hcount, List.take_succ_cons, List.flatMap_cons, List.append_assoc]
      · rw [hcount, List.drop_succ_cons]
        exact hbranch
    · have hzero : b.header.number - target.toNat = 0 := by omega
      refine ⟨b, ?_, ?_, hb, by omega⟩
      · simp [walkDown, hgo, hlt, hzero]
      · rw [hzero, List.drop_zero]
        exact .step hparent h

/-- The last loop goes down to the common ancestor, unless it meets two blocks with the same hash
    before. -/
theorem walkCommon_eq (h : Branch chain.parent rem old anc) (h' : Branch chain.parent add new anc)
    (hlen : old.length = new.length) {fuel : ℕ} (hfuel : old.length < fuel)
    (d i : List Transaction) :
    ∃ m ≤ old.length, walkCommon chain fuel rem add d i =
        some (.found (d ++ (old.take m).flatMap Block.transactions,
          i ++ (new.take m).flatMap Block.transactions)) ∧
      (m < old.length → ∃ r ∈ old, ∃ a ∈ new,
        chain.headerHash r.header = chain.headerHash a.header) := by
  induction h generalizing add new d i fuel with
  | root b =>
    obtain ⟨fuel, rfl⟩ : ∃ k, fuel = k + 1 := ⟨fuel - 1, by omega⟩
    cases h' with
    | root => exact ⟨0, le_rfl, by simp [walkCommon], by simp⟩
    | step hparent h' => simp at hlen
  | @step b p anc old hparent h ih =>
    obtain ⟨fuel, rfl⟩ : ∃ k, fuel = k + 1 := ⟨fuel - 1, by omega⟩
    cases h' with
    | root => simp at hlen
    | @step _ p' _ new hparent' h' =>
      by_cases hsame : chain.headerHash b.header = chain.headerHash add.header
      · exact ⟨0, Nat.zero_le _, by simp [walkCommon, hsame],
          fun _ => ⟨b, List.mem_cons_self, add, List.mem_cons_self, hsame⟩⟩
      · have hget : chain.getBlock b.header.parentHash (b.numberU64 - 1) = some p := hparent
        have hget' : chain.getBlock add.header.parentHash (add.numberU64 - 1) = some p' := hparent'
        obtain ⟨m, hm, hrest, hstop⟩ := ih h' (by simpa using hlen)
          (by simpa using hfuel : old.length < fuel) (d ++ b.transactions) (i ++ add.transactions)
        refine ⟨m + 1, Nat.succ_le_succ hm, ?_, fun hlt => ?_⟩
        · rw [walkCommon, if_neg hsame, hget]
          simp only [hget', hrest, List.take_succ_cons, List.flatMap_cons, List.append_assoc]
        · obtain ⟨r, hr, a, ha, heq⟩ := hstop (by simpa using hlt)
          exact ⟨r, List.mem_cons_of_mem _ hr, a, List.mem_cons_of_mem _ ha, heq⟩

/-- From two blocks with a common ancestor the loops go down to one number. -/
theorem walkDown_both (htree : chain.IsTree) (hb : chain.Stored b) (hb' : chain.Stored b')
    (hold : Branch chain.parent b old anc) (hnew : Branch chain.parent b' new anc)
    (hfits : b.header.number < 2 ^ 64) (hfits' : b'.header.number < 2 ^ 64) :
    ∃ rem add k k', walkDown chain b'.numberU64 walkFuel b [] =
        some (.found (rem, (old.take k).flatMap Block.transactions)) ∧
      walkDown chain rem.numberU64 walkFuel b' [] =
        some (.found (add, (new.take k').flatMap Block.transactions)) ∧
      Branch chain.parent rem (old.drop k) anc ∧ Branch chain.parent add (new.drop k') anc ∧
      (old.drop k).length = (new.drop k').length ∧ (old.drop k).length < walkFuel := by
  have hdesc := htree.descends
  have hnum := toNat_numberU64 hfits'
  have hoB := hold.height_eq hdesc hb
  have hnB := hnew.height_eq hdesc hb'
  have hfuel : old.length < walkFuel := by
    unfold walkFuel
    omega
  have hfuel' : new.length < walkFuel := by
    unfold walkFuel
    omega
  have hle : anc.header.number ≤ b'.numberU64.toNat := by omega
  obtain ⟨rem, hdown, hrem, hremStored, hremNum⟩ :=
    walkDown_eq (t := []) htree hold hb hfits hle hfuel
  have hremU : rem.numberU64.toNat = rem.header.number := toNat_numberU64 (by omega)
  have hle' : anc.header.number ≤ rem.numberU64.toNat := by
    have hheight := hrem.height_eq hdesc hremStored
    omega
  obtain ⟨add, hdown', hadd, haddStored, haddNum⟩ :=
    walkDown_eq (t := []) htree hnew hb' hfits' hle' hfuel'
  have hlen := hrem.height_eq hdesc hremStored
  have hlen' := hadd.height_eq hdesc haddStored
  refine ⟨rem, add, _, _, hdown, hdown', hrem, hadd, by omega, ?_⟩
  rw [List.length_drop]
  omega

/-! ## When the walk ends -/

theorem branch_of_walkDown {target : UInt64} {fuel : ℕ} {t : List Transaction}
    {r : Block × List Transaction} (h : walkDown chain target fuel b t = some (.found r)) :
    ∃ bs, Branch chain.parent b bs r.1 := by
  induction fuel generalizing b t with
  | zero => cases h
  | succ fuel ih =>
    rw [walkDown] at h
    split_ifs at h
    · split at h
      · cases h
      · rename_i p hparent
        obtain ⟨bs, hbs⟩ := ih h
        exact ⟨b :: bs, .step hparent hbs⟩
    · obtain rfl := Walk.found.inj (Option.some.inj h)
      exact ⟨[], .root b⟩

theorem branches_of_walkCommon {fuel : ℕ} {d i : List Transaction}
    {r : List Transaction × List Transaction}
    (h : walkCommon chain fuel rem add d i = some (.found r)) :
    ∃ old new x y, Branch chain.parent rem old x ∧ Branch chain.parent add new y ∧
      chain.headerHash x.header = chain.headerHash y.header := by
  induction fuel generalizing rem add d i with
  | zero => cases h
  | succ fuel ih =>
    rw [walkCommon] at h
    split_ifs at h with hsame
    · exact ⟨[], [], rem, add, .root rem, .root add, hsame⟩
    · split at h
      · cases h
      · rename_i p hparent
        split at h
        · cases h
        · rename_i p' hparent'
          obtain ⟨old, new, x, y, hold, hnew, heq⟩ := ih h
          exact ⟨_, _, x, y, .step hparent hold, .step hparent' hnew, heq⟩

/-- The blocks of the heads are in the database, and so are their branches down to a common
    block. -/
def Connected (req : ResetRequest) : Prop :=
  ∃ b b' anc old new,
    req.chain.getBlock (req.chain.headerHash req.oldHead) req.oldHead.numberU64 = some b ∧
    req.chain.getBlock (req.chain.headerHash req.newHead) req.newHead.numberU64 = some b' ∧
    Branch req.chain.parent b old anc ∧ Branch req.chain.parent b' new anc

/-- The walk ends if there is nothing to walk, or if the heads are connected. -/
theorem reinject_found_iff (htree : req.chain.IsTree)
    (hfits : ∀ {h n b}, req.chain.getBlock h n = some b → b.header.number < 2 ^ 64) :
    (∃ txs, reinject C req = some (.found txs)) ↔
      req.chain.headerHash req.oldHead = req.newHead.parentHash ∨
        64 < depth req.oldHead.numberU64 req.newHead.numberU64 ∨ Connected req := by
  by_cases hchild : req.chain.headerHash req.oldHead = req.newHead.parentHash
  · exact iff_of_true ⟨[], if_pos hchild⟩ (Or.inl hchild)
  by_cases hdeep : 64 < depth req.oldHead.numberU64 req.newHead.numberU64
  · exact iff_of_true ⟨[], (if_neg hchild).trans (if_pos hdeep)⟩ (Or.inr (Or.inl hdeep))
  rw [or_iff_right hchild, or_iff_right hdeep]
  simp only [reinject, if_neg hchild, if_neg hdeep]
  constructor
  · rintro ⟨txs, h⟩
    split at h
    · cases h
    · rename_i b hb
      obtain ⟨b', hb', h⟩ := Option.bind_eq_some_iff.1 h
      obtain ⟨down, hdown, h⟩ := Option.bind_eq_some_iff.1 h
      split at h
      · cases h
      · obtain ⟨down', hdown', h⟩ := Option.bind_eq_some_iff.1 h
        split at h
        · cases h
        · obtain ⟨last, hlast, h⟩ := Option.bind_eq_some_iff.1 h
          split at h
          · cases h
          · obtain ⟨bs, hbs⟩ := branch_of_walkDown hdown
            obtain ⟨bs', hbs'⟩ := branch_of_walkDown hdown'
            obtain ⟨old, new, x, y, hold, hnew, heq⟩ := branches_of_walkCommon hlast
            have hx := (hbs.append hold).forall_mem htree.descends (htree.stored hb)
            have hy := (hbs'.append hnew).forall_mem htree.descends (htree.stored hb')
            obtain rfl := htree.unique hx.2 hy.2 heq
            exact ⟨b, b', x, _, _, hb, hb', hbs.append hold, hbs'.append hnew⟩
  · rintro ⟨b, b', anc, old, new, hb, hb', hold, hnew⟩
    obtain ⟨rem, add, k, k', hdown, hdown', hrem, hadd, hlen, hfuel⟩ := walkDown_both htree
      (htree.stored hb) (htree.stored hb') hold hnew (hfits hb) (hfits hb')
    obtain ⟨m, -, hr, -⟩ := walkCommon_eq hrem hadd hlen hfuel
      ((old.take k).flatMap Block.transactions) ((new.take k').flatMap Block.transactions)
    simp only [hb, hb', hdown, hdown', hr, Option.bind_eq_bind, Option.bind_some]
    exact ⟨_, rfl⟩

/-! ## Reinjection -/

/-- Two heads and their branches above the common ancestor, all in the database. -/
structure Fork (req : ResetRequest) (b b' anc : Block) (old new : List Block) : Prop where
  tree : req.chain.IsTree
  oldHead : b.header = req.oldHead
  newHead : b'.header = req.newHead
  storedOld : req.chain.Stored b
  storedNew : req.chain.Stored b'
  oldBranch : Branch req.chain.parent b old anc
  newBranch : Branch req.chain.parent b' new anc
  apart : ∀ x ∈ old, x ∉ new

/-- The transactions of the old branch whose hashes are not on the new one. -/
def lost (C : Crypto) (old new : List Block) : List Transaction :=
  (old.flatMap Block.transactions).filter fun tx =>
    decide (∀ b ∈ new, ∀ tx' ∈ b.transactions, C.txHash tx' ≠ C.txHash tx)

/-- `TxDifference` compares by hash, and keeps the order. -/
theorem txDifference_eq_lost (C : Crypto) (old new : List Block) :
    txDifference C (old.flatMap Block.transactions) (new.flatMap Block.transactions) =
      lost C old new := by
  refine List.filter_congr fun tx _ => ?_
  simp only [List.mem_map, List.mem_flatMap, decide_eq_decide]
  grind

/-- When the new head is a child of the old one, nothing has left the chain. -/
theorem Fork.old_eq_nil (h : Fork req b b' anc old new)
    (hchild : req.chain.headerHash req.oldHead = req.newHead.parentHash) : old = [] := by
  have hdesc := h.tree.descends
  have hnum := h.tree.numbered h.storedNew h.storedOld (by rw [h.oldHead, h.newHead, hchild])
  have hold := h.oldBranch.height_eq hdesc h.storedOld
  have hapart := h.apart
  have hoB := h.oldBranch
  have hnB := h.newBranch
  cases hnB with
  | root => omega
  | @step _ p _ rest hparent hrest =>
    obtain ⟨hp, hheight⟩ := hdesc _ _ h.storedNew hparent
    have hpb : p = b := by
      refine h.tree.unique hp h.storedOld ?_
      rw [(h.tree.keyed hparent).1, h.newHead, ← hchild, h.oldHead]
    subst hpb
    have hlen := hrest.height_eq hdesc hp
    -- both branches start at the old head, and share no block
    cases hoB with
    | root => rfl
    | step _ _ =>
      cases hrest with
      | root => simp at hold hlen
      | step _ _ => exact absurd (by simp) (hapart p List.mem_cons_self)

/-- The walk collects both branches. -/
theorem Fork.walk (h : Fork req b b' anc old new) (hold : req.oldHead.number < 2 ^ 64)
    (hnew : req.newHead.number < 2 ^ 64)
    (hdepth : depth req.oldHead.numberU64 req.newHead.numberU64 ≤ 64) :
    reinject C req = some (.found (lost C old new)) := by
  by_cases hchild : req.chain.headerHash req.oldHead = req.newHead.parentHash
  · rw [reinject, if_pos hchild, h.old_eq_nil hchild]
    rfl
  have hdesc := h.tree.descends
  rw [← h.oldHead] at hold
  rw [← h.newHead] at hnew
  obtain ⟨rem, add, k, k', hdown, hdown', hrem, hadd, hlen, hfuel⟩ :=
    walkDown_both h.tree h.storedOld h.storedNew h.oldBranch h.newBranch hold hnew
  obtain ⟨m, hm, hlast, hstop⟩ := walkCommon_eq hrem hadd hlen hfuel
    ((old.take k).flatMap Block.transactions) ((new.take k').flatMap Block.transactions)
  -- the branches have no block in common
  obtain rfl : m = (old.drop k).length := by
    by_contra hne
    obtain ⟨x, hx, y, hy, heq⟩ := hstop (lt_of_le_of_ne hm hne)
    have hstored := (h.oldBranch.forall_mem hdesc h.storedOld).1 x (List.mem_of_mem_drop hx)
    have hstored' := (h.newBranch.forall_mem hdesc h.storedNew).1 y (List.mem_of_mem_drop hy)
    obtain rfl := h.tree.unique hstored hstored' heq
    exact h.apart x (List.mem_of_mem_drop hx) (List.mem_of_mem_drop hy)
  rw [List.take_length, hlen, List.take_length] at hlast
  have hget : req.chain.getBlock (req.chain.headerHash b.header) b.header.numberU64 = some b :=
    h.storedOld
  have hget' : req.chain.getBlock (req.chain.headerHash b'.header) b'.header.numberU64 = some b' :=
    h.storedNew
  have hshort : ¬ 64 < depth b.header.numberU64 b'.header.numberU64 := by
    rw [h.oldHead, h.newHead]
    omega
  unfold reinject
  rw [← h.oldHead, ← h.newHead] at hchild ⊢
  simp only [if_neg hchild, if_neg hshort, hget, hget', hdown, hdown', Option.bind_eq_bind,
    Option.bind_some, hlast, ← List.flatMap_append, List.take_append_drop, txDifference_eq_lost]

/-- What a reset puts back: the transactions of the old branch that are not on the new one, or
    nothing if the new head is a child of the old one or too far away. -/
inductive Returns (C : Crypto) (req : ResetRequest) : List Transaction → Prop
  | nothing (h : req.chain.headerHash req.oldHead = req.newHead.parentHash ∨
      64 < depth req.oldHead.numberU64 req.newHead.numberU64) : Returns C req []
  | branch {b b' anc : Block} {old new : List Block} (hfork : Fork req b b' anc old new)
      (hold : req.oldHead.number < 2 ^ 64) (hnew : req.newHead.number < 2 ^ 64)
      (hdepth : depth req.oldHead.numberU64 req.newHead.numberU64 ≤ 64) :
      Returns C req (lost C old new)

theorem Returns.reinject_eq {txs : List Transaction} (h : Returns C req txs) :
    reinject C req = some (.found txs) := by
  cases h with
  | nothing h => rcases h with h | h <;> simp [reinject, h]
  | branch hfork hold hnew hdepth => exact hfork.walk hold hnew hdepth

/-- **Reinjection.**  For every block tree and every two heads with their branches above the common
    ancestor: the transactions put back are those of the old branch whose hash is not on the new
    one, in the order of the walk, exactly when the distance of the heads in `float64` is at most
    64 or there are none; so for a distance of at most 64 below the number `2 ^ 53`. -/
theorem reinject_exact_iff (hfork : Fork req b b' anc old new) (hold : req.oldHead.number < 2 ^ 64)
    (hnew : req.newHead.number < 2 ^ 64) :
    (reinject C req = some (.found (lost C old new)) ↔
      depth req.oldHead.numberU64 req.newHead.numberU64 ≤ 64 ∨ lost C old new = []) ∧
    (req.oldHead.number < 2 ^ 53 → req.newHead.number < 2 ^ 53 →
      ((req.oldHead.number : ℤ) - req.newHead.number).natAbs ≤ 64 →
      reinject C req = some (.found (lost C old new))) := by
  have hiff : reinject C req = some (.found (lost C old new)) ↔
      depth req.oldHead.numberU64 req.newHead.numberU64 ≤ 64 ∨ lost C old new = [] := by
    by_cases hdepth : depth req.oldHead.numberU64 req.newHead.numberU64 ≤ 64
    · exact iff_of_true (hfork.walk hold hnew hdepth) (Or.inl hdepth)
    · have hnil := (Returns.nothing (C := C) (Or.inr (Nat.not_le.1 hdepth))).reinject_eq
      rw [hnil, Option.some.injEq, Walk.found.injEq, or_iff_right hdepth]
      exact eq_comm
  refine ⟨hiff, fun hold' hnew' hdist => hiff.2 (Or.inl ?_)⟩
  rw [depth, Header.numberU64, Header.numberU64, UInt64.toNat_ofNat_of_lt' hold,
    UInt64.toNat_ofNat_of_lt' hnew, float64Dist_of_lt hold' hnew']
  exact hdist

end TxPool

namespace Concrete

open TxPool

/-- A header whose hash is its state root. -/
def forkHeader (number : ℕ) (root : UInt8) : Header where
  parentHash := zeroBytes 32
  root := copyBytes 32 [root]
  txHash := zeroBytes 32
  number := number
  gasLimit := 0
  gasUsed := 0
  time := 0
  shardID := 0
  lastCommitSignature := zeroBytes 96
  lastCommitBitmap := []

/-- A database of blocks whose hashes are their state roots, and all have one state. -/
def treeChain (statedb : Option StateView) (blocks : List Block) : PoolChain where
  headerHash h := h.root
  getBlock hash number := blocks.find? fun b => b.header.root = hash ∧ b.numberU64 = number
  stateAt _ := statedb

theorem isTree_treeChain {statedb : Option StateView} {blocks : List Block}
    (hunique : ∀ b ∈ blocks, ∀ b' ∈ blocks, b.header.root = b'.header.root → b = b')
    (hnumber : ∀ b ∈ blocks, ∀ p ∈ blocks, p.header.root = b.header.parentHash →
      p.header.number + 1 = b.header.number) : (treeChain statedb blocks).IsTree where
  keyed hget := by simpa [treeChain] using List.find?_some hget
  unique hb hb' := hunique _ (List.mem_of_find?_eq_some hb) _ (List.mem_of_find?_eq_some hb')
  numbered hb hp := hnumber _ (List.mem_of_find?_eq_some hb) _ (List.mem_of_find?_eq_some hp)

def childOf (number : ℕ) (root parent : UInt8) (txs : List Transaction) : Block :=
  ⟨{ forkHeader number root with parentHash := copyBytes 32 [parent] }, txs⟩

/-- On the block of number `n` there are one block with a transfer and a branch of two blocks. -/
def branching (n : ℕ) : List Block :=
  [childOf n 1 0 [], childOf (n + 1) 2 1 [pay 7 0 5], childOf (n + 1) 3 1 [],
    childOf (n + 2) 4 3 []]

/-- The head moves to the longer branch. -/
def branchingReset (n : ℕ) : ResetRequest where
  chain := treeChain none (branching n)
  oldHead := (childOf (n + 1) 2 1 []).header
  newHead := (childOf (n + 2) 4 3 []).header

/-- The heads of the two branches. -/
def Forked (n : ℕ) : Prop :=
  Fork (branchingReset n) (childOf (n + 1) 2 1 [pay 7 0 5]) (childOf (n + 2) 4 3 [])
    (childOf n 1 0 []) [childOf (n + 1) 2 1 [pay 7 0 5]]
    [childOf (n + 2) 4 3 [], childOf (n + 1) 3 1 []]

/-- The transfer is put back. -/
theorem reinject_five : reinject crypto (branchingReset 5) = some (.found [pay 7 0 5]) := by
  have hfork : Forked 5 :=
    ⟨isTree_treeChain (by decide +kernel) (by decide +kernel), rfl, rfl, by decide +kernel,
      by decide +kernel, .step (by decide +kernel) (.root _),
      .step (by decide +kernel) (.step (by decide +kernel) (.root _)), by decide +kernel⟩
  exact (reinject_exact_iff hfork (by decide) (by decide)).2 (by decide) (by decide) (by decide)

/-- The numbers `2 ^ 63 + 1024` and `2 ^ 63 + 1025` are 2048 apart in `float64`, and the transfer is
    not put back. -/
theorem transfer_not_reinjected :
    Forked 0x80000000000003ff ∧ lost crypto [childOf 0x8000000000000400 2 1 [pay 7 0 5]]
        [childOf 0x8000000000000401 4 3 [], childOf 0x8000000000000400 3 1 []] = [pay 7 0 5] ∧
      reinject crypto (branchingReset 0x80000000000003ff) = some (.found []) := by
  refine ⟨⟨isTree_treeChain (by decide +kernel) (by decide +kernel), rfl, rfl, by decide +kernel,
    by decide +kernel, .step (by decide +kernel) (.root _),
    .step (by decide +kernel) (.step (by decide +kernel) (.root _)), by decide +kernel⟩,
    by decide +kernel, ?_⟩
  have hfar : 64 < depth (branchingReset 0x80000000000003ff).oldHead.numberU64
      (branchingReset 0x80000000000003ff).newHead.numberU64 := by decide +kernel
  exact (Returns.nothing (Or.inr hfar)).reinject_eq

end Concrete

end Benzene
