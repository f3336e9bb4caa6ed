import Patchcoin.Mint.Steps

/-!
# Making a block

`CreateNewBlock` fills a block with packages of the memory pool, asks the wallet for a
coinstake, and sets the time of the header last.  The packages may be as new as the time at
which the block was begun; the coinstake may be up to a minute older.  The time of the header
is the greatest time of all transactions.

The order in which the packages are looked at depends on their fees and on what is in the
block already; it is an argument, with the sums over the ancestors that were counted.
-/

namespace Patchcoin

/-! ## Packages -/

/-- An entry of the memory pool. -/
structure CTxMemPoolEntry where
  tx : CTransaction
  nFee : ℤ
  nTxWeight : ℕ
  sigOpCost : ℕ

/-- A transaction with its ancestors that are not in the block yet, in the order in which
they are added. -/
structure Package where
  entries : List CTxMemPoolEntry
  packageSize : ℕ
  packageSigOpsCost : ℕ

/-- The options of `BlockAssembler`, and what it reads of the node. -/
structure BlockAssembler where
  test_block_validity : Bool
  nBlockMaxWeight : ℕ
  /-- the packages in the order in which they are looked at, if there is a memory pool -/
  m_mempool : Option (List Package)
  /-- `pblock->nTime`: the time when the block is begun -/
  nTime : UInt32
  /-- the time when the packages are tested -/
  packageTime : UInt32
  /-- the time of the search before -/
  nLastCoinStakeSearchTime : ℤ
  rules : HeaderRules
  index : BlockMap
  pindexPrev : IndexEntry
  setStakeSeen : List (COutPoint × UInt32)
  kernel : Kernel
  ctx : Circumstances

/-- What has been added to the block. -/
structure AssemblerState where
  vtx : List CTransaction := []
  nBlockWeight : ℕ := 4000
  nBlockSigOpsCost : ℕ := 400
  nBlockTx : ℕ := 0
  nFees : ℤ := 0

/-- `AddToBlock`. -/
def AssemblerState.addToBlock (st : AssemblerState) (entry : CTxMemPoolEntry) : AssemblerState where
  vtx := st.vtx ++ [entry.tx]
  nBlockWeight := st.nBlockWeight + entry.nTxWeight
  nBlockSigOpsCost := st.nBlockSigOpsCost + entry.sigOpCost
  nBlockTx := st.nBlockTx + 1
  nFees := st.nFees + entry.nFee

namespace BlockAssembler

variable (env : Env) (stake : StakeRules) (wallet : CWallet) (call : MintCall)
  (assembler : BlockAssembler)

/-- `TestPackage`. -/
def testPackage (st : AssemblerState) (package : Package) : Bool :=
  decide (st.nBlockWeight + WITNESS_SCALE_FACTOR * package.packageSize <
      assembler.nBlockMaxWeight) &&
    decide (st.nBlockSigOpsCost + package.packageSigOpsCost < MAX_BLOCK_SIGOPS_COST)

/-- `TestPackageTransactions`: the transactions are final and not from the future. -/
def testPackageTransactions (package : Package) : Bool :=
  package.entries.all fun entry =>
    isFinalTx entry.tx ((call.view.m_chain.head?.map fun pindex => pindex.nHeight + 1).getD 0)
        (getMedianTimePast call.view.m_chain) &&
      decide (entry.tx.nTime ≤ assembler.packageTime) &&
      (assembler.nTime == 0 || decide (entry.tx.nTime ≤ assembler.nTime))

def MAX_CONSECUTIVE_FAILURES : ℕ := 1000

/-- The loop of `addPackageTxs`. -/
def addPackageTxs : List Package → ℕ → AssemblerState → AssemblerState
  | [], _, st => st
  | package :: rest, nConsecutiveFailed, st =>
    if !assembler.testPackage st package then
      -- it gives up if the block is nearly full
      if MAX_CONSECUTIVE_FAILURES < nConsecutiveFailed + 1 ∧
          assembler.nBlockMaxWeight - 4000 < st.nBlockWeight then st
      else addPackageTxs rest (nConsecutiveFailed + 1) st
    else if !assembler.testPackageTransactions call package then
      addPackageTxs rest nConsecutiveFailed st
    else addPackageTxs rest 0 (package.entries.foldl AssemblerState.addToBlock st)

/-- Whether the node adds packages.  With the genesis key it waits until no claim is
waiting, or two blocks with claims in a row were made. -/
def shouldAddPackageTxs : Bool :=
  if env.options.genesis_key_held then
    match call.view.m_chain with
    | pindexPrev :: pprev :: _ =>
      (!pindexPrev.nClaims.isEmpty && !pprev.nClaims.isEmpty) ||
        call.g_claims.toList.all fun entry =>
          !decide (entry.2.nTotalReceived < entry.2.getEligible env)
    | _ => call.g_claims.toList.all fun entry =>
      !decide (entry.2.nTotalReceived < entry.2.getEligible env)
  else true

/-- The transactions of the memory pool that go into the block. -/
def selected : AssemblerState :=
  match assembler.m_mempool with
  | none => {}
  | some packages =>
    if shouldAddPackageTxs env call then assembler.addPackageTxs call packages 0 {} else {}

/-! ## The block -/

/-- The call of `CreateCoinStake`. -/
def stakeCall : MintCall :=
  { call with
    nBits := assembler.rules.getNextTargetRequired call.view.m_chain true
    nSearchInterval := call.now.toNat - assembler.nLastCoinStakeSearchTime
    nFees := (assembler.selected env call).nFees
    nBlockTx := (assembler.selected env call).nBlockTx }

/-- The least time that the previous blocks allow. -/
def minTime : ℤ :=
  let nTimePrev := (call.view.m_chain.head?.map fun pindex => pindex.nTime.toNat).getD 0
  max (getMedianTimePast call.view.m_chain + 1) (nTimePrev - maxFutureBlockTime env nTimePrev)

/-- The coinbase without a reward, with the time of the coinstake. -/
def coinbaseTx (txCoinStake : CTransaction) : CTransaction :=
  { CMutableTransaction.new call.now with
    vin := [⟨COutPoint.null, ((CScript.mk []).pushInt64 ((call.view.m_chain.head?.map
      fun pindex => pindex.nHeight + 1).getD 0)).pushOp OP_0, 0xffffffff, []⟩]
    vout := [⟨0, ⟨[]⟩⟩]
    nTime := txCoinStake.nTime }

/-- The output that `GenerateCoinbaseCommitment` adds. -/
def witnessCommitment (block : CBlock) : CTxOut :=
  let witnessroot := env.host.hash256
    ((blockWitnessMerkleRoot env.host.hash256 block).1.toBytes ++ List.replicate 32 0)
  ⟨0, ⟨[OP_RETURN, 0x24, 0xaa, 0x21, 0xa9, 0xed] ++ witnessroot.toBytes⟩⟩

/-- `GenerateCoinbaseCommitment` and `UpdateUncommittedBlockStructures`. -/
def generateCoinbaseCommitment (block : CBlock) : CBlock :=
  let nonce := if enforceBTC16BIPs env call.view.m_chain then [List.replicate 32 0] else []
  { block with
    vtx := block.vtx.modifyHead fun coinbase =>
      { coinbase with
        vin := coinbase.vin.map fun input => { input with scriptWitness := nonce }
        vout := coinbase.vout ++ [witnessCommitment env block] } }

/-- `GetMaxTransactionTime`. -/
def getMaxTransactionTime (vtx : List CTransaction) : ℕ :=
  (vtx.map fun tx => tx.nTime.toNat).foldl max 0

/-- The time of the header.  That of the coinstake is written first and overwritten. -/
def headerTime (vtx : List CTransaction) : ℤ :=
  let nTimePrev := (call.view.m_chain.head?.map fun pindex => pindex.nTime.toNat).getD 0
  max (max (getMedianTimePast call.view.m_chain + 1) (getMaxTransactionTime vtx))
    (nTimePrev - maxFutureBlockTime env nTimePrev)

/-- `UpdateTime`, for a block that is no proof of stake. -/
def updateTime (nTime : ℤ) : ℤ :=
  max nTime (max (getMedianTimePast call.view.m_chain + 1) assembler.nTime.toNat)

/-- The block with its header filled in. -/
def fillBlock (created : CreatedStake) : CBlock :=
  let block : CBlock := generateCoinbaseCommitment env call
    { nVersion := 6
      hashPrevBlock := (call.view.m_chain.head?.map CBlockIndex.hashBlock).getD 0
      hashMerkleRoot := 0
      nTime := assembler.nTime
      nBits := assembler.rules.getNextTargetRequired call.view.m_chain true
      nNonce := 0
      nFlags := CBlockIndex.BLOCK_PROOF_OF_STAKE
      vtx := coinbaseTx call created.txNew :: created.txNew :: (assembler.selected env call).vtx
      vchBlockSig := []
      vClaim := if created.genesis_key_held then created.vClaim else [] }
  let nTime := headerTime env call block.vtx
  { block with
    nTime := UInt32.ofInt
      (if block.isProofOfStake then nTime else assembler.updateTime call nTime) }

/-- The node after `CreateCoinStake`, which may have noted that it holds the genesis key. -/
def holding (genesis_key_held : Bool) : Env :=
  { env with options := { env.options with genesis_key_held } }

/-- `TestBlockValidity`. -/
def testBlockValidity (env : Env) (block : CBlock) : Except BlockFail Unit :=
  match contextualCheckBlockHeader env assembler.rules assembler.index assembler.nTime.toNat
      assembler.pindexPrev block.toCBlockHeader with
  | .error failure => .error failure
  | .ok () =>
    match (checkBlock env false false true block).result with
    | .error failure => .error failure
    | .ok () =>
      match (contextualCheckBlock env call.view.m_chain block).result with
      | .error failure => .error failure
      | .ok () => (connectBlock env assembler.kernel assembler.ctx
          call.view.m_chain true
          { g_claims := call.g_claims
            setStakeSeen := assembler.setStakeSeen
            g_claimindex := ∅
            pindex := CBlockIndex.ofHeader (block.getHash env.host.hash256)
              ((call.view.m_chain.head?.map fun pindex => pindex.nHeight + 1).getD 0)
              block.toCBlockHeader
            view := call.coinsTip
            block }).result

/-- What `CreateNewBlock` ends with: no block, an exception, a failed assertion or a block. -/
inductive NewBlock where
  | null
  | thrown
  | aborted
  | made (block : CBlock)
  deriving DecidableEq

/-- The block for a coinstake. -/
def finishNewBlock (created : CreatedStake) : NewBlock :=
  let block := assembler.fillBlock env call created
  if assembler.test_block_validity then
    match assembler.testBlockValidity call (holding env created.genesis_key_held) block with
    | .error .aborted => .aborted
    -- a failed test is thrown as a `std::runtime_error`
    | .error _ => .thrown
    | .ok () => .made block
  else .made block

/-- `CreateNewBlock` with a wallet, if so many attempts to build the coinstake are enough. -/
def createNewBlock? (attempts : ℕ) : Option NewBlock :=
  if call.view.m_chain = [] then some .aborted
  else if (call.now.toNat : ℤ) ≤ assembler.nLastCoinStakeSearchTime then some .null
  else match createCoinStake? env stake wallet (assembler.stakeCall env call) attempts with
    | none => none
    | some (.error .thrown) => some .thrown
    | some (.error .aborted) => some .aborted
    | some (.error _) => some .null
    | some (.ok created) =>
      if minTime env call ≤ created.txNew.nTime.toNat then
        some (assembler.finishNewBlock env call created)
      else some .null

end BlockAssembler

end Patchcoin
