import Benzene.Core.PendingOrder

/-!
# The pool and the head of the chain

`reset` looks for the blocks of the two heads before it takes the state of the new one, and it
gives up when it does not find them; the rest of `runReorg` then works on the state that the pool
has.

* `runReorg_fresh`: after a run with a reset no transaction of the pool is below the nonce that its
  sender has in the state of the pool.
* `runReorg_follows_iff`: that is the state of the new head exactly if there is no walk from the old
  head to the new one, if all blocks on the way are in the database, or if the pool had it before.
-/

namespace Benzene.TxPool

variable {C : Crypto} {ord : RangeOrder} {now : ℤ} {pool pool' : TxPool} {a : Address}
  {l : TxList} {n : UInt64} {t : Transaction} {accounts : List Address}

/-- No transaction of the pool is below the nonce that its sender has in a state. -/
def Fresh (statedb : StateView) (pool : TxPool) : Prop :=
  ∀ a n t, listAt pool.pending (a, n) = some t ∨ listAt pool.queue (a, n) = some t →
    statedb.getNonce a ≤ n

theorem mem_forward {threshold : UInt64} (ht : l.get n = some t) (hlt : n < threshold) :
    t ∈ (l.forward threshold).2 := by
  by_contra hmem
  have hget := ((l.forward_drops threshold).get_iff).2 ⟨ht, hmem⟩
  exact UInt64.not_le.2 hlt (TxList.get_forward.1 hget).2

/-! ## Old transactions leave -/

/-- A transaction that has left does not come back when nothing enters. -/
theorem Kept.absent (h : Kept C [] pool pool') (hnone : pool.all.get (C.txHash t) = none) :
    pool'.all.get (C.txHash t) ≠ some t := by
  intro hmem
  have hold := (h.history.enters hmem).resolve_right nofun
  cases hnone.symm.trans hold

/-- The promotion of the queues drops what is queued below the state nonce. -/
theorem promoteExecutables_drops (h : Good C pool) (ha : a ∈ accounts)
    (ht : listAt pool.queue (a, n) = some t) (hlt : n < pool.currentState.getNonce a)
    (hr : promoteExecutables C ord now pool accounts = some pool') :
    pool'.all.get (C.txHash t) ≠ some t := by
  induction accounts generalizing pool with
  | nil => cases ha
  | cons b accounts ih =>
    obtain ⟨pool₁, hpool₁, hrest⟩ := Option.bind_eq_some_iff.1 hr
    have hg₁ := (promoteAccount_keeps h hpool₁).1.toGood
    by_cases hb : a = b
    · subst hb
      obtain ⟨l, hl, hget⟩ := listAt_eq_some.1 ht
      obtain ⟨txs, -, hbooks⟩ := promoteAccount_books h hl hpool₁
      refine (promoteExecutables_keeps hg₁ hrest).1.absent ?_
      show pool₁.books.all.get (C.txHash t) = none
      rw [hbooks]
      exact TxLookup.get_dropAll_of_mem (List.mem_append_left _ (mem_forward hget hlt))
    · have hview := (promoteAccount_view h hpool₁).1 a hb
      refine ih hg₁ (List.mem_of_ne_of_mem hb ha) ?_ ?_ hrest
      · rw [← ht]
        exact congrFun (congrArg AccountView.queue hview) n
      · rw [(promoteAccount_keeps h hpool₁).2.currentState]
        exact hlt

/-- What is pending stays pending in a promotion. -/
theorem promoteExecutables_pending (h : Good C pool) (ht : listAt pool.pending (a, n) = some t)
    (hr : promoteExecutables C ord now pool accounts = some pool') :
    listAt pool'.pending (a, n) = some t := by
  induction accounts generalizing pool with
  | nil => exact Option.some.inj hr ▸ ht
  | cons b accounts ih =>
    obtain ⟨pool₁, hpool₁, hr⟩ := Option.bind_eq_some_iff.1 hr
    obtain ⟨hframe, hp⟩ := promoteAccount_view h hpool₁
    refine ih (promoteAccount_keeps h hpool₁).1.toGood ?_ hr
    by_cases hb : a = b
    · subst hb
      exact hp.sub ht
    · rw [← ht]
      exact congrFun (congrArg AccountView.pending (hframe a hb)) n

/-- The demotion drops what is pending below the state nonce. -/
theorem demoteAccounts_drops (h : Good C pool) (ha : a ∈ accounts)
    (ht : listAt pool.pending (a, n) = some t) (hlt : n < pool.currentState.getNonce a)
    (hr : demoteAccounts C ord now pool accounts = some pool') :
    pool'.all.get (C.txHash t) ≠ some t := by
  induction accounts generalizing pool with
  | nil => cases ha
  | cons b accounts ih =>
    obtain ⟨pool₁, hpool₁, hrest⟩ := Option.bind_eq_some_iff.1 hr
    obtain ⟨hkept, hsame⟩ := demoteAccount_keeps h hpool₁
    by_cases hb : a = b
    · subst hb
      obtain ⟨l, hl, hget⟩ := listAt_eq_some.1 ht
      obtain rfl := Option.some.inj ((demoteAccount_eq ord now h.sound hl).1.symm.trans hpool₁)
      refine (demoteAccounts_keeps hkept.toGood hrest).1.absent ?_
      show (pool.demoted C ord now a l).books.all.get (C.txHash t) = none
      rw [demoted_books]
      exact TxLookup.get_dropAll_of_mem (List.mem_append_left _ (mem_forward hget hlt))
    · have hview := (demoteAccount_view h hpool₁).1 a hb
      refine ih hkept.toGood (List.mem_of_ne_of_mem hb ha) ?_ (hsame.currentState ▸ hlt) hrest
      rw [← ht]
      exact congrFun (congrArg AccountView.pending hview) n

/-- The transactions of the pool are not below the nonces of its state after a reset, which may
    have been given up. -/
theorem runReorg_fresh (h : Good C pool) (hslots : 1 ≤ pool.config.accountSlots.toNat)
    {req : ResetRequest} {dirtyAccounts : Option AccountSet}
    (hr : pool.runReorg C ord now (some req) dirtyAccounts = some pool') :
    ∃ pool₁, pool.reset C ord now req = some pool₁ ∧ pool'.currentState = pool₁.currentState ∧
      pool'.Fresh pool'.currentState := by
  have hg' := (runReorg_keeps h hslots hr).1
  obtain ⟨pool₁, hpool₁, hr⟩ := Option.bind_eq_some_iff.1 hr
  obtain ⟨pool₂, hpool₂, hr⟩ := Option.bind_eq_some_iff.1 hr
  obtain ⟨pool₃, hpool₃, hr⟩ := Option.bind_eq_some_iff.1 hr
  obtain ⟨hg₁, hfixed₁⟩ := reset_keeps h hpool₁
  obtain ⟨hg₂, hsame₂⟩ := promoteExecutables_keeps hg₁.toGood hpool₂
  obtain ⟨hg₃, hsame₃⟩ := demoteAccounts_keeps hg₂.toGood hpool₃
  have hfixed := hfixed₁.trans (hsame₂.trans hsame₃).fixed
  have hslots' : 1 ≤ pool₃.config.accountSlots.toNat := hfixed.config ▸ hslots
  obtain ⟨hfinish, hsame₄⟩ := finishReorg_keeps hg₃.toGood hslots' hr
  have hstate : pool'.currentState = pool₁.currentState :=
    hsame₄.currentState.trans (hsame₂.trans hsame₃).currentState
  refine ⟨pool₁, hpool₁, hstate, fun a n t ht => ?_⟩
  rw [hstate]
  by_contra hlt
  rw [UInt64.not_le] at hlt
  -- the transaction has been in the table since the reset, so it was listed then
  have hcell : C.cell t = (a, n) :=
    ht.elim hg'.sound.shelved.left_place hg'.sound.shelved.right_place
  have hall' : pool'.all.get (C.txHash t) = some t :=
    ht.elim hg'.sound.get_of_pending hg'.sound.get_of_queued
  have hall₃ := (hfinish.history.enters hall').resolve_right nofun
  have hall₂ := (hg₃.history.enters hall₃).resolve_right nofun
  have hall₁ := (hg₂.history.enters hall₂).resolve_right nofun
  rcases ((hg₁.sound.shelved.index_iff _ _).1 hall₁).2 with hp | hq | hheld
  · rw [hcell] at hp
    have hp₂ := promoteExecutables_pending hg₁.toGood hp hpool₂
    refine demoteAccounts_drops hg₂.toGood ?_ hp₂ (hsame₂.currentState ▸ hlt) hpool₃ hall₃
    rw [RangeOrder.mem_order, GoMap.mem_keys_iff]
    obtain ⟨l, hl, -⟩ := listAt_eq_some.1 hp₂
    exact ⟨l, hl⟩
  · rw [hcell] at hq
    refine promoteExecutables_drops hg₁.toGood ?_ hq hlt hpool₂ hall₂
    rw [RangeOrder.mem_order, GoMap.mem_keys_iff]
    obtain ⟨l, hl, -⟩ := listAt_eq_some.1 hq
    exact ⟨l, hl⟩
  · cases hheld

/-- **The pool follows the head of the chain** in every run, after a reorganisation whose new head
    has a state, exactly if the old head is its parent or more than 64 blocks away, if the blocks of
    both are in the database down to a common one, or if the pool had that state before. -/
theorem runReorg_follows_iff (C : Crypto) (config : TxPoolConfig) (statedb₀ statedb : StateView)
    (events : List Event) (ord : RangeOrder) (now : ℤ) (req : ResetRequest)
    (dirtyAccounts : Option AccountSet) (pool pool' : TxPool) (htree : req.chain.IsTree)
    (hfits : ∀ {h n b}, req.chain.getBlock h n = some b → b.header.number < 2 ^ 64)
    (hrun : runEvents C (newTxPool config statedb₀) events = some pool)
    (hr : pool.runReorg C ord now (some req) dirtyAccounts = some pool')
    (hstate : req.chain.stateAt req.newHead.root = some statedb) :
    (pool'.currentState = statedb ∧ pool'.Fresh statedb) ↔
      (req.chain.headerHash req.oldHead = req.newHead.parentHash ∨
        64 < depth req.oldHead.numberU64 req.newHead.numberU64 ∨ Connected req) ∨
      pool.currentState = statedb := by
  obtain ⟨hg, hfixed⟩ := runEvents_good hrun
  obtain ⟨pool₁, hpool₁, heq, hfresh⟩ := runReorg_fresh hg hfixed.one_le_accountSlots hr
  have hiff : pool'.currentState = statedb ∧ pool'.Fresh statedb ↔
      pool₁.currentState = statedb := by
    rw [← heq]
    exact ⟨And.left, fun h => ⟨h, h ▸ hfresh⟩⟩
  rw [hiff, ← @reinject_found_iff C req htree hfits]
  rcases reset_cases hg hpool₁ with
    ⟨rfl, hnone⟩ | ⟨txs, statedb', r, hwalk, hstate', hg', hadd, rfl⟩
  · refine ⟨Or.inr, fun h => h.resolve_left ?_⟩
    rintro ⟨txs, hwalk⟩
    exact hnone txs statedb hwalk hstate
  · refine iff_of_true ?_ (Or.inl ⟨txs, hwalk⟩)
    rw [(addTxsLocked_keeps hg' hadd).2.same.currentState]
    exact Option.some.inj (hstate'.symm.trans hstate)

end Benzene.TxPool

namespace Benzene.Concrete

open TxPool

/-- A transfer with nonce 0 is pending. -/
def sentPool : TxPool :=
  (runEvents crypto (newTxPool defaultTxPoolConfig (uniformState 0 100))
    [poolEvent (.addLocals [pay 7 0 5]), promotePayer]).get (by decide +kernel)

/-- The head moves to a branch in whose state the account has sent a transfer. -/
def headReset (blocks : List Block) : ResetRequest where
  chain := treeChain (some (uniformState 1 100)) blocks
  oldHead := (childOf 6 2 1 []).header
  newHead := (childOf 7 4 3 []).header

theorem runReorg_follows_branch :
    ∃ pool', sentPool.runReorg crypto rangeOrder 0 (some (headReset (branching 5))) none =
      some pool' ∧ pool'.currentState = uniformState 1 100 ∧ pool'.Fresh (uniformState 1 100) := by
  obtain ⟨pool', hr⟩ := Option.isSome_iff_exists.1 (by decide +kernel :
    (sentPool.runReorg crypto rangeOrder 0 (some (headReset (branching 5))) none).isSome = true)
  have hfits : ∀ {h n b}, (headReset (branching 5)).chain.getBlock h n = some b →
      b.header.number < 2 ^ 64 := by
    intro h n b hget
    have hsmall : ∀ b ∈ branching 5, b.header.number < 2 ^ 64 := by decide +kernel
    exact hsmall b (List.mem_of_find?_eq_some
      (p := fun b : Block => b.header.root = h ∧ b.numberU64 = n) hget)
  have hconnected : Connected (headReset (branching 5)) :=
    ⟨_, _, childOf 5 1 0 [], _, [childOf 7 4 3 [], childOf 6 3 1 []], rfl, rfl,
      .step (by decide +kernel) (.root _),
      .step (by decide +kernel) (.step (by decide +kernel) (.root _))⟩
  exact ⟨pool', hr, (runReorg_follows_iff crypto defaultTxPoolConfig (uniformState 0 100)
    (uniformState 1 100) [poolEvent (.addLocals [pay 7 0 5]), promotePayer] rangeOrder 0
    (headReset (branching 5)) none sentPool pool'
    (isTree_treeChain (by decide +kernel) (by decide +kernel)) hfits (Option.some_get _).symm hr
    rfl).2 (Or.inl (Or.inr (Or.inr hconnected)))⟩

/-- The old head has been deleted. -/
def rewoundBlocks : List Block := (branching 5).filter fun b => b.header.root ≠ copyBytes 32 [2]

def stuckPool : TxPool :=
  (sentPool.runReorg crypto rangeOrder 0 (some (headReset rewoundBlocks)) none).get
    (by decide +kernel)

/-- After the old head has been deleted the pool stays at the old state, and keeps the transfer that
    is below the nonce of the new one. -/
theorem runReorg_stays :
    sentPool.runReorg crypto rangeOrder 0 (some (headReset rewoundBlocks)) none =
        some stuckPool ∧ stuckPool.currentState.getNonce payer = 0 ∧
      stuckPool.currentState ≠ uniformState 1 100 ∧ ¬ stuckPool.Fresh (uniformState 1 100) := by
  have hnonce : stuckPool.currentState.getNonce payer = 0 := by decide +kernel
  refine ⟨(Option.some_get _).symm, hnonce, fun heq => ?_, fun hfresh => ?_⟩
  · rw [heq] at hnonce
    exact absurd hnonce (by decide)
  · obtain ⟨t, ht⟩ := Option.isSome_iff_exists.1
      (by decide +kernel : (listAt stuckPool.pending (payer, 0)).isSome = true)
    exact absurd (hfresh payer 0 t (Or.inl ht)) (by decide)

end Benzene.Concrete
