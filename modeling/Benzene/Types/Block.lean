import Benzene.Common.Bytes

/-!
# Headers, transactions and blocks

The data of core/types/block.go, core/types/header.go and core/types/transaction.go that
is sent over the wire.  Cached values (`hash`, `size`, `from`), the local arrival time of
a transaction and the commit signature a node attaches to a block in memory
(`commitSigAndBitmap`, never read back) are not part of the values.
-/

namespace Benzene

/-- `txdata` (core/types/transaction.go:49-66). The `Hash` field is for JSON only; the
    big integers of a transaction that was not decoded from the wire may be negative. -/
structure Transaction where
  accountNonce : UInt64
  price : ℤ
  gasLimit : UInt64
  shardID : UInt64
  toShardID : UInt64
  /-- `none` is a contract creation. -/
  recipient : Option Address
  amount : ℤ
  payload : Bytes
  v : ℤ
  r : ℤ
  s : ℤ
deriving DecidableEq

/-- `Header` (core/types/header.go:15-26). -/
structure Header where
  parentHash : Hash
  root : Hash
  txHash : Hash
  number : ℕ
  gasLimit : UInt64
  gasUsed : UInt64
  time : ℕ
  shardID : UInt64
  lastCommitSignature : ByteArr 96
  lastCommitBitmap : Bytes
deriving DecidableEq

/-- `Number.Uint64()`: the low 64 bits of the number. -/
def Header.numberU64 (h : Header) : UInt64 := UInt64.ofNat h.number

/-- `Block` (core/types/block.go:66-75). -/
structure Block where
  header : Header
  transactions : List Transaction
deriving DecidableEq

/-- `NumberU64` (core/types/block.go:178). -/
def Block.numberU64 (b : Block) : UInt64 := b.header.numberU64

/-- The largest block number, whose successor wraps to zero. -/
def maxBlockNum : UInt64 := 0xffffffffffffffff

variable {n : UInt64}

theorem lt_add_one_of_ne_max (h : n ≠ maxBlockNum) : n < n + 1 := by
  have hlt : n.toNat < 2 ^ 64 := n.toNat_lt
  have hne : n.toNat ≠ 2 ^ 64 - 1 := by
    intro heq
    exact h (UInt64.toNat_inj.1 heq)
  rw [UInt64.lt_iff_toNat_lt, UInt64.toNat_add]
  have hone : (1 : UInt64).toNat = 1 := rfl
  omega

theorem toNat_sub_one_add_one (h : 0 < n.toNat) : (n - 1).toNat + 1 = n.toNat := by
  have hone : (1 : UInt64).toNat ≤ n.toNat := h
  rw [UInt64.toNat_sub_of_le _ _ (UInt64.le_iff_toNat_le.2 hone)]
  exact Nat.sub_add_cancel hone

theorem le_add_one_of_ne_max (h : n ≠ maxBlockNum) : n ≤ n + 1 :=
  UInt64.le_of_lt (lt_add_one_of_ne_max h)

end Benzene
