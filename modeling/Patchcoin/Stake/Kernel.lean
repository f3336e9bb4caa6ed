import Patchcoin.Stake.Modifier
import Patchcoin.Chain.Connect

/-!
# The stake kernel

`CheckProofOfStake` finds the transaction that a coinstake spends from through
the transaction index, checks the script of the spent output and then hashes the
kernel: the stake modifier that applies to the stake, the times and the position
of the staked transaction.  The hash has to be below the target times the weight
of the coin.

The outputs of the staked transaction are a vector that the source indexes
without a check.  A read beyond its end is undefined behaviour and a failure of
its own here (`KernelFail.outOfBounds`).
-/

namespace Patchcoin

open PrefixCode

/-- How the check of a stake kernel fails. -/
inductive KernelFail where
  | refused (failure : BlockFail)
  /-- a vector is read beyond its end -/
  | outOfBounds
  deriving DecidableEq, Repr

/-- What the check of a stake reads of the block index. -/
structure StakeView where
  /-- `LookupBlockIndex` -/
  lookup : Uint256 → Option CBlockIndex
  /-- the active chain, its tip first -/
  m_chain : IndexChain

/-- `CDiskTxPos`: where a block starts, and where in it a transaction. -/
structure CDiskTxPos where
  nPos : ℕ
  nTxOffset : UInt32

/-- `g_txindex`. -/
structure TxIndex where
  findTxPosition : Uint256 → Option CDiskTxPos
  cachedTxs : Uint256 → Option (CBlockHeader × CTransaction)
  /-- The header and the transaction at a position, unless reading throws. -/
  readBlockFile : CDiskTxPos → Option (CBlockHeader × CTransaction)

/-- The header and the transaction behind a hash, as `CheckProofOfStake` reads them. -/
def TxIndex.readTx (g_txindex : TxIndex) (hash : Uint256) :
    Option (CDiskTxPos × CBlockHeader × CTransaction) :=
  match g_txindex.findTxPosition hash with
  | none => none
  | some postx =>
    match g_txindex.cachedTxs hash with
    | some found => some (postx, found)
    | none => (g_txindex.readBlockFile postx).map fun found => (postx, found)

theorem position_of_readTx {g_txindex : TxIndex} {hash : Uint256} {postx : CDiskTxPos}
    {found : CBlockHeader × CTransaction} (h : g_txindex.readTx hash = some (postx, found)) :
    g_txindex.findTxPosition hash = some postx := by
  unfold TxIndex.readTx at h
  split at h
  · cases h
  · next hposition =>
    split at h
    · cases h
      exact hposition
    · obtain ⟨_, _, heq⟩ := Option.map_eq_some_iff.mp h
      cases heq
      exact hposition

namespace StakeView

/-- `m_chain.Contains(pindex)`. -/
def contains (view : StakeView) (pindex : CBlockIndex) : Bool :=
  (view.m_chain.reverse[pindex.nHeight]?).map CBlockIndex.hashBlock == some pindex.hashBlock

/-- `m_chain.Next(pindex)`. -/
def next (view : StakeView) (pindex : CBlockIndex) : Option CBlockIndex :=
  if view.contains pindex then view.m_chain.reverse[pindex.nHeight + 1]? else none

end StakeView

section

variable (env : Env) (stake : StakeRules) (view : StakeView)

/-! ## The modifier of a kernel -/

/-- The loop of `GetKernelStakeModifierV05`, at an entry and with the time of the last
modifier that was passed. -/
def kernelModifierLoop (nTimeTx : UInt32) : IndexChain → ℤ → Option UInt64
  | [], _ => none
  | pindex :: rest, nStakeModifierTime =>
    if nStakeModifierTime + env.params.nStakeMinAge - getStakeModifierSelectionInterval stake ≤
        nTimeTx.toNat then some pindex.nStakeModifier
    else match rest with
      | [] => none
      | pprev :: _ => kernelModifierLoop nTimeTx rest
          (if pprev.generatedStakeModifier then pprev.getBlockTime else nStakeModifierTime)

/-- `GetKernelStakeModifierV05`. -/
def getKernelStakeModifierV05 (ancestors : IndexChain) (nTimeTx : UInt32) : Option UInt64 :=
  match ancestors with
  | [] => none
  | pindexPrev :: rest =>
    if (pindexPrev.getBlockTime : ℤ) + env.params.nStakeMinAge -
        getStakeModifierSelectionInterval stake ≤ nTimeTx.toNat then none
    else kernelModifierLoop env stake nTimeTx (pindexPrev :: rest) pindexPrev.getBlockTime

/-- The entry after another one on the way to the previous block: on the active chain,
or on the blocks `tmpChain` that fork from it, `n` of which were passed. -/
def kernelNext (tmpChain : List CBlockIndex) (pindex : CBlockIndex) (n : ℕ) :
    Option (CBlockIndex × ℕ) :=
  match tmpChain.head? with
  | some first =>
    if first.nHeight ≤ pindex.nHeight + 1 then
      (tmpChain[n]?).map fun pindexNext => (pindexNext, n + 1)
    else (view.next pindex).map fun pindexNext => (pindexNext, n)
  | none => (view.next pindex).map fun pindexNext => (pindexNext, n)

/-- The loop of `GetKernelStakeModifierV03`.  Every round passes a block, so that the
number of blocks bounds the number of rounds. -/
def forwardLoop (tmpChain : List CBlockIndex) (stop : ℕ) : ℕ → CBlockIndex → ℕ → ℕ → Option UInt64
  | 0, _, _, _ => none
  | fuel + 1, pindex, n, nStakeModifierTime =>
    if stop ≤ nStakeModifierTime then some pindex.nStakeModifier
    else match kernelNext view tmpChain pindex n with
      | none => none
      | some (pindexNext, n) => forwardLoop tmpChain stop fuel pindexNext n
          (if pindexNext.generatedStakeModifier then pindexNext.getBlockTime
            else nStakeModifierTime)

/-- `GetKernelStakeModifierV03`.  Reserving a negative number of elements throws. -/
def getKernelStakeModifierV03 (ancestors : IndexChain) (hashBlockFrom : Uint256) :
    Except BlockFail UInt64 :=
  match view.lookup hashBlockFrom with
  | none => .error .silent
  | some pindexFrom =>
    let height := (ancestors.head?.map CBlockIndex.nHeight).getD 0
    if height + 1 < pindexFrom.nHeight then .error .thrown
    else
      let tmpChain := ((ancestors.take (height + 1 - pindexFrom.nHeight)).takeWhile
        fun pindex => !view.contains pindex).reverse
      match forwardLoop view tmpChain
          (pindexFrom.getBlockTime + getStakeModifierSelectionInterval stake)
          (view.m_chain.length + tmpChain.length + 1) pindexFrom 0 pindexFrom.getBlockTime with
      | none => .error .silent
      | some nStakeModifier => .ok nStakeModifier

/-- `GetKernelStakeModifier`. -/
def getKernelStakeModifier (ancestors : IndexChain) (hashBlockFrom : Uint256) (nTimeTx : UInt32) :
    Except BlockFail UInt64 :=
  if isProtocolV05 env.params nTimeTx.toNat then
    match getKernelStakeModifierV05 env stake ancestors nTimeTx with
    | none => .error .silent
    | some nStakeModifier => .ok nStakeModifier
  else getKernelStakeModifierV03 stake view ancestors hashBlockFrom

/-! ## The kernel hash -/

/-- `CBigNum::SetCompact`. -/
def setCompact (nCompact : UInt32) : ℤ :=
  let nSize := nCompact.toNat / 2 ^ 24
  let nWord := (nCompact &&& 0x007fffff).toNat
  let magnitude : ℕ := if nSize ≤ 3 then nWord / 2 ^ (8 * (3 - nSize))
    else nWord * 2 ^ (8 * (nSize - 3))
  if nCompact &&& 0x00800000 ≠ 0 then -magnitude else magnitude

/-- The weight of a coin of the given value, in coin days. -/
def coinDayWeight (nValueIn : ℤ) (nTimeTxPrev nTimeTx : UInt32) : ℤ :=
  let nTimeWeight := min ((nTimeTx.toNat : ℤ) - nTimeTxPrev.toNat) stake.nStakeMaxAge -
    (if isProtocolV03 env.params nTimeTx.toNat then env.params.nStakeMinAge else 0)
  ((nValueIn * nTimeWeight).tdiv COIN).tdiv (24 * 60 * 60)

/-- What the kernel hash starts with: the modifier, or the target before version 0.3. -/
def kernelSalt (nBits : UInt32) (ancestors : IndexChain) (hashBlockFrom : Uint256)
    (nTimeTx : UInt32) : Except BlockFail (List UInt8) :=
  if isProtocolV03 env.params nTimeTx.toNat then
    match getKernelStakeModifier env stake view ancestors hashBlockFrom nTimeTx with
    | .error failure => .error failure
    | .ok nStakeModifier => .ok (leBytes 8 nStakeModifier.toNat)
  else .ok (serUInt32 nBits)

/-- `CheckStakeKernelHash`: the hash of the proof of stake.  The stake of the first
block after the genesis block is not hashed. -/
def checkStakeKernelHash (nBits : UInt32) (ancestors : IndexChain) (blockFrom : CBlockHeader)
    (nTxPrevOffset : UInt32) (txPrev : CTransaction) (prevout : COutPoint) (nTimeTx : UInt32) :
    Except KernelFail Uint256 :=
  let nTimeBlockFrom := blockFrom.nTime
  let nTimeTxPrev := if txPrev.nTime = 0 then nTimeBlockFrom else txPrev.nTime
  let hashBlockFrom := blockFrom.getHash env.host.hash256
  match ancestors with
  | [] => .error (.refused .aborted)
  | pindexPrev :: rest =>
    if rest = [] ∧ pindexPrev.nMint = env.params.genesisValue ∧
        hashBlockFrom = env.params.hashGenesisBlock then .ok 0
    else if nTimeTx < nTimeTxPrev then .error (.refused .silent)
    else if (nTimeTx.toNat : ℤ) < nTimeBlockFrom.toNat + env.params.nStakeMinAge then
      .error (.refused .silent)
    else match txPrev.vout[prevout.n.toNat]? with
      | none => .error .outOfBounds
      | some out =>
        match kernelSalt env stake view nBits (pindexPrev :: rest) hashBlockFrom nTimeTx with
        | .error failure => .error (.refused failure)
        | .ok salt =>
          let hashProofOfStake := env.host.hash256 (salt ++ (serUInt32 nTimeBlockFrom ++
            (serUInt32 nTxPrevOffset ++ (serUInt32 nTimeTxPrev ++
              (serUInt32 prevout.n ++ serUInt32 nTimeTx)))))
          if coinDayWeight env stake out.value nTimeTxPrev nTimeTx * setCompact nBits <
              hashProofOfStake.toNat then .error (.refused .silent)
          else .ok hashProofOfStake

/-- The size of a header on disk (`NORMAL_SERIALIZE_SIZE`). -/
def NORMAL_SERIALIZE_SIZE : UInt32 := 80

/-- A failure of `CheckStakeKernelHash` marks the block. -/
def KernelFail.onKernel : KernelFail → KernelFail
  | .refused .thrown => .refused .thrown
  | .refused .aborted => .refused .aborted
  | .refused _ => .refused (.invalid .BLOCK_CONSENSUS "check-kernel-failed")
  | .outOfBounds => .outOfBounds

/-- The part of `CheckProofOfStake` after the staked transaction was found. -/
def checkStakedTx (ancestors : IndexChain) (tx : CTransaction) (prevout : COutPoint)
    (nBits nTimeTx : UInt32) (postx : CDiskTxPos) (header : CBlockHeader) (txPrev : CTransaction) :
    Except KernelFail Uint256 :=
  if txPrev.getHash env.host.hash256 ≠ prevout.hash then .error (.refused .silent)
  else match txPrev.vout[prevout.n.toNat]? with
    | none => .error .outOfBounds
    | some prevOut =>
      if !stake.verifyScript tx prevOut then
        .error (.refused (.invalid .BLOCK_CONSENSUS "invalid-pos-script"))
      else match checkStakeKernelHash env stake view nBits ancestors header
          (postx.nTxOffset + NORMAL_SERIALIZE_SIZE) txPrev prevout nTimeTx with
        | .error failure => .error failure.onKernel
        | .ok hashProofOfStake => .ok hashProofOfStake

/-- `CheckProofOfStake`. -/
def checkProofOfStake (g_txindex : Option TxIndex) (ancestors : IndexChain) (tx : CTransaction)
    (nBits nTimeTx : UInt32) : Except KernelFail Uint256 :=
  if !tx.isCoinStake then .error (.refused .silent)
  else
    let prevout := (tx.vin.head?.map CTxIn.prevout).getD COutPoint.null
    match g_txindex.bind fun index => index.readTx prevout.hash with
    | none => .error (.refused .silent)
    | some (postx, header, txPrev) =>
      checkStakedTx env stake view ancestors tx prevout nBits nTimeTx postx header txPrev

/-! ## The kernel of the model -/

/-- A read beyond the end of a vector ends the process as far as the caller can tell. -/
def KernelFail.toBlockFail : KernelFail → BlockFail
  | .refused failure => failure
  | .outOfBounds => .aborted

/-- The stake functions as the code has them. -/
def stakeKernel (g_txindex : Option TxIndex) (rand : ℕ → ℕ) : Kernel where
  checkProofOfStake ancestors tx nBits nTimeTx :=
    (checkProofOfStake env stake view g_txindex ancestors tx nBits nTimeTx).mapError
      KernelFail.toBlockFail
  getStakeEntropyBit := getStakeEntropyBit env
  computeNextStakeModifier := computeNextStakeModifier env stake rand view.lookup
  getStakeModifierChecksum := getStakeModifierChecksum env
  checkStakeModifierCheckpoints := checkStakeModifierCheckpoints env

end

end Patchcoin
