import Patchcoin.Env

/-!
# The block index

`pindex->pprev` chains are lists with the nearest block first.  An entry holds
the header of its block, the stake data and what `ConnectBlock` records about
it: the money supply and the payouts of claims.
-/

namespace Patchcoin

/-- `nStatus`, with its flags apart. -/
structure BlockStatus where
  /-- `BLOCK_VALID_MASK`: from unknown (0) to scripts (5). -/
  validity : ℕ := 0
  haveData : Bool := false
  haveUndo : Bool := false
  failedValid : Bool := false
  failedChild : Bool := false
  deriving DecidableEq, Repr

def BLOCK_VALID_TREE : ℕ := 2
def BLOCK_VALID_TRANSACTIONS : ℕ := 3
def BLOCK_VALID_SCRIPTS : ℕ := 5

structure CBlockIndex where
  hashBlock : Uint256
  nHeight : ℕ
  nStatus : BlockStatus := {}
  nVersion : Int32
  hashMerkleRoot : Uint256
  nTime : UInt32
  nBits : UInt32
  nNonce : UInt32
  nFlags : UInt32 := 0
  nMint : ℤ := 0
  nMoneySupply : ℤ := 0
  nHeightStake : ℕ := 0
  nStakeModifier : UInt64 := 0
  nStakeModifierChecksum : UInt32 := 0
  prevoutStake : COutPoint := COutPoint.null
  nStakeTime : UInt32 := 0
  hashProofOfStake : Uint256 := 0
  /-- The payouts of this block by claim source, as `uint64_t`. -/
  nClaims : Std.ExtTreeMap CScript ℕ compare := ∅
  queuedClaims : List UInt16 := []

namespace CBlockIndex

def BLOCK_PROOF_OF_STAKE : UInt32 := 1
def BLOCK_STAKE_ENTROPY : UInt32 := 2
def BLOCK_STAKE_MODIFIER : UInt32 := 4

def isProofOfStake (pindex : CBlockIndex) : Bool := pindex.nFlags &&& BLOCK_PROOF_OF_STAKE != 0

def isProofOfWork (pindex : CBlockIndex) : Bool := !pindex.isProofOfStake

def setStakeEntropyBit (pindex : CBlockIndex) (nEntropyBit : ℕ) : Option CBlockIndex :=
  if 1 < nEntropyBit then none
  else some { pindex with
    nFlags := pindex.nFlags ||| (if nEntropyBit = 0 then 0 else BLOCK_STAKE_ENTROPY) }

def setStakeModifier (pindex : CBlockIndex) (nModifier : UInt64) (fGenerated : Bool) :
    CBlockIndex :=
  { pindex with
    nStakeModifier := nModifier
    nFlags := if fGenerated then pindex.nFlags ||| BLOCK_STAKE_MODIFIER else pindex.nFlags }

/-- `CBlockIndex(header)`, before it is linked into the index. -/
def ofHeader (hash : Uint256) (nHeight : ℕ) (header : CBlockHeader) : CBlockIndex where
  hashBlock := hash
  nHeight := nHeight
  nVersion := header.nVersion
  hashMerkleRoot := header.hashMerkleRoot
  nTime := header.nTime
  nBits := header.nBits
  nNonce := header.nNonce
  nFlags := header.nFlags

/-- `IsValid(nUpTo)`. -/
def isValid (pindex : CBlockIndex) (nUpTo : ℕ) : Bool :=
  !pindex.nStatus.failedValid && !pindex.nStatus.failedChild &&
    decide (nUpTo ≤ pindex.nStatus.validity)

/-- `RaiseValidity(nUpTo)`. -/
def raiseValidity (pindex : CBlockIndex) (nUpTo : ℕ) : CBlockIndex :=
  if !pindex.nStatus.failedValid && !pindex.nStatus.failedChild &&
      decide (pindex.nStatus.validity < nUpTo) then
    { pindex with nStatus := { pindex.nStatus with validity := nUpTo } }
  else pindex

/-- Only the status changes, and no mark of a failure. -/
theorem raiseValidity_cases (pindex : CBlockIndex) (nUpTo : ℕ) :
    ∃ nStatus, pindex.raiseValidity nUpTo = { pindex with nStatus } ∧
      nStatus.failedValid = pindex.nStatus.failedValid := by
  unfold raiseValidity
  split_ifs
  · exact ⟨_, rfl, rfl⟩
  · exact ⟨_, rfl, rfl⟩

end CBlockIndex

/-- An entry of the index and its ancestors, nearest first. -/
abbrev IndexChain := List CBlockIndex

/-- `GetMedianTimePast` of the first entry. -/
def getMedianTimePast (chain : IndexChain) : ℕ :=
  let times := ((chain.take 11).map fun pindex => pindex.nTime.toNat).insertionSort (· ≤ ·)
  times.getD (times.length / 2) 0

/-- `GetAncestor(height)`, with the entries from there on. -/
def getAncestor (chain : IndexChain) (height : ℕ) : IndexChain :=
  chain.dropWhile fun pindex => decide (pindex.nHeight ≠ height)

/-! ## Payouts along a chain -/

/-- The total paid to a source over the blocks of a chain. -/
def claimedTotal (chain : IndexChain) (source : CScript) : ℕ :=
  (chain.map fun pindex => pindex.nClaims.getD source 0).sum

/-- The number of blocks of a chain that pay a source. -/
def claimedCount (chain : IndexChain) (source : CScript) : ℕ :=
  chain.countP fun pindex => pindex.nClaims.contains source

@[simp] theorem claimedTotal_nil (source : CScript) : claimedTotal [] source = 0 := rfl

@[simp] theorem claimedTotal_cons (pindex : CBlockIndex) (chain : IndexChain) (source : CScript) :
    claimedTotal (pindex :: chain) source =
      pindex.nClaims.getD source 0 + claimedTotal chain source := by
  simp [claimedTotal]

@[simp] theorem claimedCount_nil (source : CScript) : claimedCount [] source = 0 := rfl

theorem claimedCount_cons (pindex : CBlockIndex) (chain : IndexChain) (source : CScript) :
    claimedCount (pindex :: chain) source =
      claimedCount chain source + if pindex.nClaims.contains source then 1 else 0 := by
  rw [claimedCount, List.countP_cons]
  rfl

end Patchcoin
