import Patchcoin.Consensus.Claims
import Patchcoin.Consensus.CheckBlock

/-!
# Connecting a block

`connectBlock` applies a block to the state of the node.  Its state is explicit:
the claim pool, the set of stakes seen, the claim database, the entry of the
block in the index, the coin view and the block object itself.  A failure keeps
what was written before it.

The stake kernel and the circumstances of a call that the block does not
determine (whether scripts are checked, whether in parallel, whether the undo
data could be written) are parameters.
-/

namespace Patchcoin

/-! ## Parameters -/

/-- The functions of the stake kernel. -/
structure Kernel where
  /-- `CheckProofOfStake`: chain of the previous block, coinstake, target, time. -/
  checkProofOfStake : IndexChain → CTransaction → UInt32 → UInt32 → Except BlockFail Uint256
  getStakeEntropyBit : CBlock → ℕ
  /-- `ComputeNextStakeModifier`: the modifier and whether it was generated here. -/
  computeNextStakeModifier : CBlockIndex → IndexChain → Option (UInt64 × Bool)
  getStakeModifierChecksum : CBlockIndex → IndexChain → UInt32
  checkStakeModifierCheckpoints : ℕ → UInt32 → Bool

/-- The circumstances of a call of `ConnectBlock`. -/
structure Circumstances where
  fScriptChecks : Bool
  parallel_script_checks : Bool
  /-- `WriteUndoDataForBlock` -/
  writeUndoData : Except BlockFail Unit

/-- A claim as the claim database stores it. -/
structure ClaimRecord where
  m_claim : CClaim
  nTime : ℤ
  m_seen : Bool
  nTotalReceived : ℤ
  deriving DecidableEq, Repr

def Claim.toRecord (claim : Claim) : ClaimRecord :=
  ⟨claim.m_claim, claim.nTime, claim.m_seen, claim.nTotalReceived⟩

/-- What a call of `ConnectBlock` can write. -/
structure ConnectState where
  g_claims : ClaimPool
  setStakeSeen : List (COutPoint × UInt32)
  g_claimindex : Std.ExtTreeMap CScript ClaimRecord compare
  pindex : CBlockIndex
  view : CCoinsView
  block : CBlock

section

variable (env : Env) (kernel : Kernel) (ctx : Circumstances)

/-! ## Stake checks -/

/-- The coinstake of a proof-of-stake block. -/
def coinstake (block : CBlock) : CTransaction := block.vtx.getD 1 ⟨[], [], 0, 0, 0⟩

/-- The time that a transaction of a block is checked with. -/
def txTime (tx : CTransaction) (block : CBlock) : UInt32 :=
  if tx.nTime = 0 then block.nTime else tx.nTime

/-- The stake of a proof-of-stake block is noted in its entry and in the set of stakes. -/
def noteStake (hashProofOfStake : Uint256) (st : ConnectState) : ConnectState :=
  if st.block.isProofOfStake then
    let prevoutStake := st.block.getProofOfStake.1
    { st with
      pindex := { st.pindex with
        prevoutStake
        nStakeTime := (coinstake st.block).nTime
        hashProofOfStake }
      setStakeSeen := st.setStakeSeen.insert (prevoutStake, st.pindex.nTime) }
  else st

/-- What `PeercoinContextualBlockChecks` writes when it is not a dry run. -/
def writeStake (hashProofOfStake : Uint256) (nStakeModifier : UInt64)
    (fGeneratedStakeModifier : Bool) (nStakeModifierChecksum : UInt32) (st : ConnectState) :
    Outcome ConnectState BlockFail Unit :=
  let st := noteStake hashProofOfStake st
  match st.pindex.setStakeEntropyBit (kernel.getStakeEntropyBit st.block) with
  | none => .fail st .silent
  | some pindex => .pass { st with
      pindex := { pindex.setStakeModifier nStakeModifier fGeneratedStakeModifier with
        nStakeModifierChecksum } }

/-- The checksum that the index entry would have with its stake fields set. -/
def stagedChecksum (ancestors : IndexChain) (hashProofOfStake : Uint256) (nStakeModifier : UInt64)
    (fGeneratedStakeModifier : Bool) (st : ConnectState) : Option UInt32 :=
  (st.pindex.setStakeEntropyBit (kernel.getStakeEntropyBit st.block)).map fun pindex =>
    kernel.getStakeModifierChecksum
      { pindex.setStakeModifier nStakeModifier fGeneratedStakeModifier with hashProofOfStake }
      ancestors

/-- The proof of stake, and whether the same stake was seen before.  A stake that
repeats the one of this very entry also invalidates the entry. -/
def checkStake (ancestors : IndexChain) (st : ConnectState) : Except BlockFail Uint256 :=
  if !st.block.isProofOfStake then .ok 0
  else match kernel.checkProofOfStake ancestors (coinstake st.block) st.block.nBits
      (txTime (coinstake st.block) st.block) with
    | .error failure => .error failure
    | .ok hashProofOfStake =>
      let proofOfStake := st.block.getProofOfStake
      if st.pindex.isProofOfStake && proofOfStake.1 == st.pindex.prevoutStake then .error .silent
      else if st.setStakeSeen.contains proofOfStake then .error .silent
      else .ok hashProofOfStake

/-- `PeercoinContextualBlockChecks`. -/
def peercoinContextualBlockChecks (ancestors : IndexChain) (fJustCheck : Bool)
    (st : ConnectState) : Outcome ConnectState BlockFail Unit :=
  match checkStake kernel ancestors st with
  | .error failure => .fail st failure
  | .ok hashProofOfStake =>
    match kernel.computeNextStakeModifier st.pindex ancestors with
    | none => .fail st .silent
    | some (nStakeModifier, fGeneratedStakeModifier) =>
      match stagedChecksum kernel ancestors hashProofOfStake nStakeModifier
          fGeneratedStakeModifier st with
      | none => .fail st .silent
      | some checksum =>
        if !kernel.checkStakeModifierCheckpoints st.pindex.nHeight checksum then
          .fail st .silent
        else if fJustCheck then .pass st
        else writeStake kernel hashProofOfStake nStakeModifier fGeneratedStakeModifier
          checksum st

/-! ## Transactions -/

def SCRIPT_VERIFY_P2SH : UInt32 := 0x1
def SCRIPT_VERIFY_DERSIG : UInt32 := 0x4
def SCRIPT_VERIFY_NULLDUMMY : UInt32 := 0x10
def SCRIPT_VERIFY_CHECKLOCKTIMEVERIFY : UInt32 := 0x200
def SCRIPT_VERIFY_CHECKSEQUENCEVERIFY : UInt32 := 0x400
def SCRIPT_VERIFY_WITNESS : UInt32 := 0x800
def SCRIPT_VERIFY_TAPROOT : UInt32 := 0x20000

def isMockableChain : Bool := env.params.network == .regtest

/-- `GetBlockScriptFlags`.  No network lists exceptions. -/
def getBlockScriptFlags (ancestors : IndexChain) : UInt32 :=
  let base := SCRIPT_VERIFY_P2SH ||| SCRIPT_VERIFY_WITNESS ||| SCRIPT_VERIFY_TAPROOT
  let base := if enforceBTC16BIPs env ancestors && !isMockableChain env then
    base ||| SCRIPT_VERIFY_DERSIG else base
  let base := if ancestors.isEmpty then base else base ||| SCRIPT_VERIFY_CHECKLOCKTIMEVERIFY
  if enforceBTC16BIPs env ancestors then
    base ||| SCRIPT_VERIFY_CHECKSEQUENCEVERIFY ||| SCRIPT_VERIFY_NULLDUMMY else base

/-- The lock of one input in `CalculateSequenceLocks`. -/
def sequenceLock (chain : IndexChain) (input : CTxIn) (nCoinHeight : ℕ) (lock : ℤ × ℤ) : ℤ × ℤ :=
  let masked : ℤ := (input.nSequence &&& 0xffff).toNat
  if input.nSequence &&& 0x80000000 ≠ 0 then lock
  else if input.nSequence &&& 0x400000 ≠ 0 then
    let nCoinTime : ℤ := getMedianTimePast (getAncestor chain (nCoinHeight - 1))
    (lock.1, max lock.2 (nCoinTime + masked * 2 ^ 9 - 1))
  else (max lock.1 (nCoinHeight + masked - 1), lock.2)

/-- `SequenceLocks` for the block at the head of the chain. -/
def sequenceLocks (view : CCoinsView) (tx : CTransaction) (fVerifySequence : Bool)
    (pindex : CBlockIndex) (ancestors : IndexChain) : Except BlockFail Bool :=
  let lock := if decide (2 ≤ tx.nVersion.toUInt32) && fVerifySequence then
      tx.vin.foldl (fun lock input => sequenceLock (pindex :: ancestors) input
        (view.accessCoin input.prevout).nHeight lock) (-1, -1)
    else (-1, -1)
  -- `assert(block.pprev)`
  if ancestors.isEmpty then .error .aborted
  else .ok (!(decide ((pindex.nHeight : ℤ) ≤ lock.1) ||
    decide ((getMedianTimePast ancestors : ℤ) ≤ lock.2)))

/-- `GetTransactionSigOpCost`. -/
def getTransactionSigOpCost (flags : UInt32) (view : CCoinsView) (tx : CTransaction) : ℕ :=
  getLegacySigOpCount tx * WITNESS_SCALE_FACTOR +
    if tx.isCoinBase then 0
    else (tx.vin.map fun input =>
      let prevout := (view.accessCoin input.prevout).out
      (if prevout.scriptPubKey.isPayToScriptHash then
        prevout.scriptPubKey.getSigOpCountP2SH input.scriptSig * WITNESS_SCALE_FACTOR else 0) +
      env.host.countWitnessSigOps flags input prevout).sum

/-- The variables of the transaction loop of `ConnectBlock`. -/
structure TxLoop extends ClaimState where
  view : CCoinsView
  nFees : ℤ := 0
  nValueIn : ℤ := 0
  nValueOut : ℤ := 0
  nSigOpsCost : ℕ := 0
  /-- what the checks handed to other threads will have said -/
  deferred : Bool := true

/-- `nValueOut += tx.GetValueOut()`. -/
def addValueOut (tx : CTransaction) (st : TxLoop) : Outcome TxLoop BlockFail Unit :=
  match tx.getValueOut with
  | none => .fail st .thrown
  | some value => .pass { st with nValueOut := st.nValueOut + value }

/-- `CheckClaims` in the transaction loop. -/
def connectClaims (ancestors : IndexChain) (block : CBlock) (tx : CTransaction) (st : TxLoop) :
    Outcome TxLoop BlockFail Unit :=
  let checked := checkClaims env ancestors st.view tx (txTime tx block) block.vClaim st.toClaimState
  let st := { st with toClaimState := checked.state }
  match checked.result with
  | .error failure => .fail st failure.toBlockFail
  | .ok () => .pass st

/-- The sums and the sequence locks of a transaction with inputs. -/
def connectAmounts (pindex : CBlockIndex) (ancestors : IndexChain) (tx : CTransaction)
    (txfee : ℤ) (st : TxLoop) : Outcome TxLoop BlockFail Unit :=
  let nValueIn := st.nValueIn +
    (tx.vin.map fun input => (st.view.accessCoin input.prevout).out.value).sum
  (addValueOut tx { st with nValueIn }).andThen fun _ st =>
    let st := if tx.isCoinStake then st else { st with nFees := st.nFees + txfee }
    if !moneyRange st.nFees then
      .fail st (.invalid .BLOCK_CONSENSUS "bad-txns-accumulated-fee-outofrange")
    else match sequenceLocks st.view tx
        (enforceBTC16BIPs env ancestors && !isMockableChain env) pindex ancestors with
      | .error failure => .fail st failure
      | .ok false => .fail st (.invalid .BLOCK_CONSENSUS "bad-txns-nonfinal")
      | .ok true => .pass st

/-- The first part of the loop body: inputs, claims and sums. -/
def connectInputs (pindex : CBlockIndex) (ancestors : IndexChain) (block : CBlock)
    (tx : CTransaction) (st : TxLoop) : Outcome TxLoop BlockFail Unit :=
  if tx.isCoinBase then addValueOut tx st
  else match checkTxInputs env st.view tx pindex.nHeight (txTime tx block) with
    | .error failure => .fail st failure.toBlockFail
    | .ok txfee =>
      (connectClaims env ancestors block tx st).andThen fun _ st =>
        connectAmounts env pindex ancestors tx txfee st

/-- Signature operations and scripts. -/
def connectScripts (ancestors : IndexChain) (tx : CTransaction) (st : TxLoop) :
    Outcome TxLoop BlockFail Unit :=
  let flags := getBlockScriptFlags env ancestors
  let st := { st with
    nSigOpsCost := st.nSigOpsCost + getTransactionSigOpCost env flags st.view tx }
  if MAX_BLOCK_SIGOPS_COST < st.nSigOpsCost then
    .fail st (.invalid .BLOCK_CONSENSUS "bad-blk-sigops")
  else if tx.isCoinBase || !ctx.fScriptChecks then .pass st
  else match env.host.checkInputScripts flags tx
      (tx.vin.map fun input => (st.view.accessCoin input.prevout).out) with
    | .ok () => .pass st
    | .error failure =>
      if ctx.parallel_script_checks then .pass { st with deferred := false }
      else .fail st failure.toBlockFail

/-- `UpdateCoins` in the transaction loop. -/
def connectCoins (pindex : CBlockIndex) (tx : CTransaction) (st : TxLoop) :
    Outcome TxLoop BlockFail Unit :=
  match st.view.updateCoins env.host.hash256 tx pindex.nHeight
      (isProtocolV12 env.params pindex.nTime.toNat) with
  | .error failure => .fail st failure
  | .ok view => .pass { st with view }

/-- The body of the transaction loop of `ConnectBlock`. -/
def connectTx (pindex : CBlockIndex) (ancestors : IndexChain) (block : CBlock)
    (tx : CTransaction) (st : TxLoop) : Outcome TxLoop BlockFail Unit :=
  (connectInputs env pindex ancestors block tx st).andThen fun _ st =>
    (connectScripts env ctx ancestors tx st).andThen fun _ st =>
      connectCoins env pindex tx st

/-! ## The block -/

/-- `max_pos`, as the `uint16_t` it is stored in. -/
def maxQueuePosition : ℕ :=
  (env.snapshot.scriptPubKeys.size + env.snapshot.incompatibleScriptPubKeys.size + 2 ^ 16 - 2) %
    2 ^ 16

/-- The mint and the money supply after the block. -/
def connectMint (st : TxLoop) : ℤ := st.nValueOut - st.nValueIn + st.nFees

def connectMoneySupply (ancestors : IndexChain) (st : TxLoop) : ℤ :=
  (ancestors.head?.map CBlockIndex.nMoneySupply).getD 0 + st.nValueOut - st.nValueIn

/-- The tests of `ConnectBlock` after the transaction loop. -/
def checkConnectTotals (ancestors : IndexChain) (isGenesis : Bool) (st : TxLoop) :
    Except BlockFail Unit :=
  if !isGenesis && decide (st.nFees < connectMint st) then blockConsensus "bad-cs-amount"
  else if !isGenesis && decide (env.params.genesisValue < connectMint st) then
    blockConsensus "bad-txns-reward-outofrange"
  else if env.params.genesisValue < connectMoneySupply ancestors st then
    blockConsensus "bad-ms-amount"
  else if st.queued_claims.any fun claim_pos => decide (maxQueuePosition env < claim_pos.toNat) then
    blockConsensus "bad-claim-queue"
  else if alreadyQueued ancestors st.queued_claims then blockConsensus "bad-claim-already-queued"
  else if !st.deferred then blockConsensus "block-validation-failed"
  else .ok ()

/-- The body of the recording loop of `ConnectBlock`, for one payout. -/
def recordClaim (ancestors : IndexChain) (st : ConnectState) (payout : CScript × ℤ) :
    ConnectState :=
  match st.g_claims[payout.1]? with
  | none => st
  | some claim =>
    let claim := { claim with
      m_seen := true
      nTime := if claim.nTime = 0 then st.pindex.nTime.toNat else claim.nTime }
    let pindex := { st.pindex with
      nClaims := st.pindex.nClaims.insert claim.getSource (payout.2 % 2 ^ 64).toNat }
    let received := claim.getTotalReceived env (pindex :: ancestors) 0 0
    let claim := { claim with nTotalReceived := received.2.1 }
    { st with
      g_claims := st.g_claims.insert payout.1 claim
      g_claimindex := st.g_claimindex.insert claim.getSource claim.toRecord
      pindex }

/-- What `ConnectBlock` records once the block is valid. -/
def recordBlock (ancestors : IndexChain) (loop : TxLoop) (st : ConnectState) : ConnectState :=
  let nHeightStake := (ancestors.head?.map CBlockIndex.nHeightStake).getD 0 +
    if st.block.isProofOfStake then 1 else 0
  let st := { st with pindex := { st.pindex with
    nMint := connectMint loop
    nMoneySupply := connectMoneySupply ancestors loop
    nHeightStake
    queuedClaims := loop.queued_claims } }
  (loop.claims.toList.map Prod.snd).foldl (recordClaim env ancestors) st

/-- The end of `ConnectBlock`: the records, the undo data and the new best block. -/
def finishBlock (ancestors : IndexChain) (isGenesis : Bool) (loop : TxLoop) (st : ConnectState) :
    Outcome ConnectState BlockFail Unit :=
  let st := recordBlock env ancestors loop st
  match if isGenesis then .ok () else ctx.writeUndoData with
  | .error failure => .fail st failure
  | .ok () => .pass { st with
      pindex := st.pindex.raiseValidity BLOCK_VALID_SCRIPTS
      view := { st.view with bestBlock := st.pindex.hashBlock } }

/-- The variables of the transaction loop at its start. -/
def loopInit (st : ConnectState) : TxLoop where
  g_claims := st.g_claims
  claims := ∅
  queued_claims := []
  view := st.view

/-- The transaction loop of `ConnectBlock`. -/
def connectLoop (ancestors : IndexChain) (st : ConnectState) : Outcome TxLoop BlockFail Unit :=
  Outcome.forEach (connectTx env ctx st.pindex ancestors st.block) st.block.vtx
    (loopInit st)

/-- The transactions of the block and everything after them. -/
def connectTransactions (ancestors : IndexChain) (fJustCheck : Bool) (st : ConnectState) :
    Outcome ConnectState BlockFail Unit :=
  let isGenesis := st.block.getHash env.host.hash256 == env.params.hashGenesisBlock
  let loop := connectLoop env ctx ancestors st
  let st := { st with g_claims := loop.state.g_claims, view := loop.state.view }
  match loop.result with
  | .error failure => .fail st failure
  | .ok () =>
    match checkConnectTotals env ancestors isGenesis loop.state with
    | .error failure => .fail st failure
    | .ok () =>
      if fJustCheck then .pass st
      else finishBlock env ctx ancestors isGenesis loop.state st

/-- The call of `CheckBlock` in `ConnectBlock`.  A mutated block on disk means a
hardware problem, and the node shuts down. -/
def connectCheckBlock (fJustCheck : Bool) (st : ConnectState) :
    Outcome ConnectState BlockFail Unit :=
  let checked := checkBlock env (!fJustCheck) (!fJustCheck) true st.block
  let st := { st with block := checked.state }
  match checked.result with
  | .ok () => .pass st
  | .error (.invalid .BLOCK_MUTATED _) =>
    .fail st (.error "Corrupt block found indicating potential hardware failure; shutting down")
  | .error failure => .fail st failure

/-- The tests of `ConnectBlock` before its transactions: the entry is the one of the
block, the block is a proof of stake, its stake, and `CheckBlock`. -/
def connectPrologue (ancestors : IndexChain) (fJustCheck : Bool) (st : ConnectState) :
    Outcome ConnectState BlockFail Unit :=
  let hash := st.block.getHash env.host.hash256
  if st.pindex.hashBlock ≠ hash then .fail st .aborted
  else if hash ≠ env.params.hashGenesisBlock ∧ st.pindex.isProofOfWork then
    .fail st (.invalid .BLOCK_CONSENSUS "bad-block-pow")
  else
    (if st.pindex.nStakeModifier = 0 ∧ st.pindex.nStakeModifierChecksum = 0 then
      peercoinContextualBlockChecks kernel ancestors fJustCheck st else .pass st).andThen
      fun _ st => connectCheckBlock env fJustCheck st

/-- The special case of the genesis block, which becomes the best block of the view
before its transactions are connected like any others. -/
def setGenesisBest (fJustCheck : Bool) (st : ConnectState) : ConnectState :=
  if st.block.getHash env.host.hash256 == env.params.hashGenesisBlock && !fJustCheck then
    { st with view := { st.view with bestBlock := st.pindex.hashBlock } }
  else st

/-- `Chainstate::ConnectBlock`, on a block whose parent heads the given chain. -/
def connectBlock (ancestors : IndexChain) (fJustCheck : Bool) (st : ConnectState) :
    Outcome ConnectState BlockFail Unit :=
  (connectPrologue env kernel ancestors fJustCheck st).andThen fun _ st =>
    -- the view stands for the previous block
    if (ancestors.head?.map CBlockIndex.hashBlock).getD 0 ≠ st.view.bestBlock then
      .fail st .aborted
    else connectTransactions env ctx ancestors fJustCheck
      (setGenesisBest env fJustCheck st)

end

end Patchcoin
