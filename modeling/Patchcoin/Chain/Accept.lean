import Patchcoin.Stake.Node

/-!
# Accepting headers and blocks

`AcceptBlockHeader` decides whether a header gets an entry in the block index, and
`AcceptBlock` whether the block behind it is written to disk.  Both report through
a `BlockValidationState`: a failure usually marks the state as invalid, but some
branches return `false` and leave the state valid (`Fail.silent`), and a caller
that only looks at the state takes these for success.

`ProcessNewBlock` runs `CheckBlock` on the block object before it is accepted, and
`AcceptBlock` runs it again on the same object, which remembers the first verdict.
-/

namespace Patchcoin

/-- What the header checks read of the network and of the options of the node. -/
structure HeaderRules where
  /-- `GetNextTargetRequired` after a chain, for proof of stake or not -/
  getNextTargetRequired : IndexChain → Bool → UInt32
  checkpoints_enabled : Bool
  /-- the hashes of the checkpoints, the last one first -/
  checkpoints : List Uint256
  nMinimumChainWork : ℕ

/-- What a node keeps about blocks. -/
structure ChainMan where
  index : BlockMap
  /-- in the order in which the set is scanned -/
  m_failed_blocks : List Uint256
  setStakeSeen : List (COutPoint × UInt32)
  /-- the tip of the active chain -/
  tip : Uint256
  /-- the blocks that were written to disk, the last one first -/
  blockFiles : List CBlock

/-- Whether `BLOCK_FAILED_MASK` is set. -/
def CBlockIndex.hasFailed (pindex : CBlockIndex) : Bool :=
  pindex.nStatus.failedValid || pindex.nStatus.failedChild

/-- `strprintf("0x%08x")`. -/
def hex8 (n : UInt32) : String :=
  let digits := Nat.toDigits 16 n.toNat
  "0x" ++ String.ofList (List.replicate (8 - digits.length) '0' ++ digits)

def isProofOfStakeHeader (header : CBlockHeader) : Bool :=
  header.nFlags &&& CBlockIndex.BLOCK_PROOF_OF_STAKE != 0

section

variable (env : Env) (rules : HeaderRules)

/-! ## Headers -/

def isGenesisHeader (header : CBlockHeader) : Bool :=
  header.getHash env.host.hash256 == env.params.hashGenesisBlock

/-- How far a block may be ahead of the clock. -/
def maxFutureBlockTime (nTime : ℕ) : ℕ :=
  if isProtocolV09 env.params nTime then MAX_FUTURE_BLOCK_TIME else MAX_FUTURE_BLOCK_TIME_PREV9

/-- `GetLastCheckpoint`: the last checkpoint that is in the block index. -/
def getLastCheckpoint (index : BlockMap) : Option IndexEntry :=
  rules.checkpoints.findSome? index

/-- The versions that `ContextualCheckBlockHeader` refuses; the switches of versions
0.6, 14 and 15 have been made. -/
def isOutdated (header : CBlockHeader) (pindexPrev : CBlockIndex) : Bool :=
  decide (header.nVersion.toInt < 2) ||
    (decide (header.nVersion.toInt < 4) && isProtocolV12 env.params pindexPrev.nTime.toNat) ||
    decide (header.nVersion.toInt < 5) || decide (header.nVersion.toInt < 6)

/-- `ContextualCheckBlockHeader`. -/
def contextualCheckBlockHeader (index : BlockMap) (now : ℕ) (pindexPrev : IndexEntry)
    (header : CBlockHeader) : Except BlockFail Unit :=
  let chain := index.chainOf pindexPrev
  let blockTime := header.nTime.toNat
  if !isGenesisHeader env header && !isProofOfStakeHeader header then
    .error (.invalid .BLOCK_INVALID_HEADER "pow")
  else if header.nBits ≠ rules.getNextTargetRequired chain (isProofOfStakeHeader header) then
    .error (.invalid .BLOCK_INVALID_HEADER "bad-diffbits")
  else if rules.checkpoints_enabled && ((getLastCheckpoint rules index).map fun pcheckpoint =>
      decide (pindexPrev.nHeight + 1 < pcheckpoint.nHeight)).getD false then
    .error (.invalid .BLOCK_CHECKPOINT "bad-fork-prior-to-checkpoint")
  else if blockTime ≤ getMedianTimePast chain ∨
      blockTime + maxFutureBlockTime env blockTime < pindexPrev.getBlockTime then
    .error (.invalid .BLOCK_INVALID_HEADER "time-too-old")
  else if now + maxFutureBlockTime env blockTime < blockTime then
    .error (.invalid .BLOCK_TIME_FUTURE "time-too-new")
  else if isOutdated env header pindexPrev.toCBlockIndex then
    .error (.invalid .BLOCK_INVALID_HEADER
      ("bad-version(" ++ hex8 header.nVersion.toUInt32 ++ ")"))
  else .ok ()

/-- `CheckBlockHeader`. -/
def checkBlockHeader (fCheckPOW : Bool) (header : CBlockHeader) : Except BlockFail Unit :=
  if fCheckPOW && !isGenesisHeader env header then
    .error (.invalid .BLOCK_INVALID_HEADER "pow")
  else .ok ()

/-- The tests of `AcceptBlockHeader` on a header that is new, up to its parent. -/
def newHeaderTests (index : BlockMap) (now : ℕ) (header : CBlockHeader) :
    Except BlockFail IndexEntry :=
  -- the only failure that leaves the state valid
  if !isProofOfStakeHeader header then .error .silent
  else match checkBlockHeader env (!isProofOfStakeHeader header) header with
    | .error failure => .error failure
    | .ok () =>
      match index header.hashPrevBlock with
      | none => .error (.invalid .BLOCK_MISSING_PREV "prev-blk-not-found")
      | some pindexPrev =>
        if pindexPrev.hasFailed then .error (.invalid .BLOCK_INVALID_PREV "bad-prevblk")
        else match contextualCheckBlockHeader env rules index now pindexPrev header with
          | .error failure => .error failure
          | .ok () => .ok pindexPrev

/-- The first known failed block among a block and its ancestors, if the block was not
validated already. -/
def failedAncestor (st : ChainMan) (pindexPrev : IndexEntry) : Option Uint256 :=
  if pindexPrev.isValid BLOCK_VALID_SCRIPTS then none
  else st.m_failed_blocks.find? fun failed =>
    (st.index.chainOf pindexPrev).any fun pindex => pindex.hashBlock == failed

/-- `nStatus |= BLOCK_FAILED_CHILD` for the blocks with the given hashes. -/
def markFailedChildren (index : BlockMap) (hashes : List Uint256) : BlockMap :=
  hashes.foldl (fun index hash =>
    match index hash with
    | none => index
    | some entry => index.insert
        { entry with nStatus := { entry.nStatus with failedChild := true } }) index

/-- The blocks between a block and its failed ancestor, itself included. -/
def childrenOfFailed (st : ChainMan) (pindexPrev : IndexEntry) (failed : Uint256) : List Uint256 :=
  ((st.index.chainOf pindexPrev).map CBlockIndex.hashBlock).takeWhile fun hash => hash ≠ failed

/-- The end of `AcceptBlockHeader`: the header gets its entry. -/
def addHeader (header : CBlockHeader) (min_pow_checked : Bool) (st : ChainMan) :
    Outcome ChainMan BlockFail IndexEntry :=
  if !min_pow_checked then
    .fail st (.invalid .BLOCK_HEADER_LOW_WORK "too-little-chainwork")
  else
    let added := st.index.addToBlockIndex env.host.hash256 header
    ⟨{ st with index := added.1 }, .ok added.2⟩

/-- `AcceptBlockHeader`. -/
def acceptBlockHeader (now : ℕ) (header : CBlockHeader) (min_pow_checked : Bool) (st : ChainMan) :
    Outcome ChainMan BlockFail IndexEntry :=
  if isGenesisHeader env header then addHeader env header min_pow_checked st
  else match st.index (header.getHash env.host.hash256) with
    | some pindex =>
      if pindex.hasFailed then .fail st (.invalid .BLOCK_CACHED_INVALID "duplicate")
      else ⟨st, .ok pindex⟩
    | none =>
      match newHeaderTests env rules st.index now header with
      | .error failure => .fail st failure
      | .ok pindexPrev =>
        match failedAncestor st pindexPrev with
        | none => addHeader env header min_pow_checked st
        | some failed =>
          let index := markFailedChildren st.index (childrenOfFailed st pindexPrev failed)
          if ((st.index failed).map fun entry => entry.nStatus.failedValid).getD false then
            .fail { st with index } (.invalid .BLOCK_INVALID_PREV "bad-prevblk")
          else .fail st .aborted

/-! ## Blocks -/

def MIN_BLOCKS_TO_KEEP : ℕ := 288

/-- The circumstances of a call of `AcceptBlock`. -/
structure AcceptCall where
  /-- the adjusted time -/
  now : ℕ
  fRequested : Bool
  min_pow_checked : Bool
  g_txindex : Option TxIndex
  /-- the numbers that `GetRand` returns -/
  rand : ℕ → ℕ
  /-- `SaveBlockToDisk`: an error state, or a C++ exception and `AbortNode` -/
  saveBlockToDisk : Except BlockFail Unit

/-- What `AcceptBlock` can write: the node and the memory flags of the block. -/
structure AcceptState where
  man : ChainMan
  block : CBlock

/-- Why `AcceptBlock` returns `true` without processing a block. -/
def skipsBlock (call : AcceptCall) (st : ChainMan) (pindex : IndexEntry) : Bool :=
  let tip := st.index st.tip
  pindex.nStatus.haveData ||
    (!call.fRequested &&
      (pindex.nTx != 0 ||
        (tip.map fun tip => decide (pindex.nChainTrust < tip.nChainTrust)).getD false ||
        decide ((tip.map fun tip => (tip.nHeight : ℤ)).getD (-1) + MIN_BLOCKS_TO_KEEP <
          pindex.nHeight) ||
        decide (pindex.nChainTrust < rules.nMinimumChainWork)))

/-- `CheckBlock` and `ContextualCheckBlock` of a block with the given ancestors. -/
def blockTests (ancestors : IndexChain) (block : CBlock) : Outcome CBlock BlockFail Unit :=
  (checkBlock env true true true block).andThen fun _ block =>
    contextualCheckBlock env ancestors block

/-- Whether a failure of the tests of a block marks it as failed for good. -/
def marksFailed : BlockFail → Bool
  | .invalid .BLOCK_MUTATED _ => false
  | .invalid _ _ => true
  | _ => false

/-- The part of `AcceptBlock` before the stake check.  It ends with the entry of the
block, or with nothing if the block is not processed. -/
def acceptBlockTests (call : AcceptCall) (st : AcceptState) :
    Outcome AcceptState BlockFail (Option IndexEntry) :=
  let header := acceptBlockHeader env rules call.now st.block.toCBlockHeader call.min_pow_checked
    st.man
  let st := { st with man := header.state }
  match header.result with
  | .error failure => .fail st failure
  | .ok pindex =>
    let parent := pindex.pprev.bind st.man.index
    if (parent.map fun pprev => !pprev.isValid BLOCK_VALID_TRANSACTIONS).getD false then
      .fail st .silent
    else if skipsBlock rules call st.man pindex then ⟨st, .ok none⟩
    else
      let tests := blockTests env (st.man.index.ancestors pindex) st.block
      let st := { st with block := tests.state }
      match tests.result with
      | .ok () => ⟨st, .ok (some pindex)⟩
      | .error failure =>
        if marksFailed failure then
          .fail { st with man := { st.man with index := st.man.index.insert pindex.failed } }
            failure
        else .fail st failure

variable (stake : StakeRules)

/-- The stake functions in the situation of a call. -/
def AcceptCall.kernel (call : AcceptCall) (st : ChainMan) : Kernel :=
  stakeKernel env stake (st.index.stakeView st.tip) call.g_txindex call.rand

/-- `CheckProofOfStake` as it is called for a block. -/
def blockProofOfStake (call : AcceptCall) (st : ChainMan) (pindex : IndexEntry) (block : CBlock) :
    Except KernelFail Uint256 :=
  checkProofOfStake env stake (st.index.stakeView st.tip) call.g_txindex
    (st.index.ancestors pindex) (coinstake block) block.nBits (txTime (coinstake block) block)

/-- Whether checking the proof of stake of a block reads a vector beyond its end. -/
def readsOutOfBounds (call : AcceptCall) (st : ChainMan) (pindex : IndexEntry) (block : CBlock) :
    Bool :=
  block.isProofOfStake &&
    decide (blockProofOfStake env stake call st pindex block = .error .outOfBounds)

/-- The block is written to disk, and its entry filled in. -/
def storeBlock (call : AcceptCall) (pindex : IndexEntry) (checked : CBlockIndex)
    (st : AcceptState) : Outcome AcceptState KernelFail IndexEntry :=
  match call.saveBlockToDisk with
  | .error failure =>
    let index := st.man.index.insert { pindex with toCBlockIndex := checked }
    .fail { st with man := { st.man with index } } (.refused failure)
  | .ok () =>
    let entry := { pindex.accepted checked with nTx := st.block.vtx.length }
    let index := st.man.index.insert entry
    let blockFiles := st.block :: st.man.blockFiles
    ⟨{ st with man := { st.man with index, blockFiles } }, .ok entry⟩

/-- The part of `AcceptBlock` from the stake check on. -/
def acceptBlockStake (call : AcceptCall) (pindex : IndexEntry) (st : AcceptState) :
    Outcome AcceptState KernelFail IndexEntry :=
  if readsOutOfBounds env stake call st.man pindex st.block then .fail st .outOfBounds
  else match stakeCheck (call.kernel env stake st.man) (st.man.index.ancestors pindex)
      st.man.setStakeSeen pindex.toCBlockIndex st.block with
    | .error .thrown => .fail st (.refused .thrown)
    | .error .aborted => .fail st (.refused .aborted)
    | .error _ =>
      .fail { st with man := { st.man with index := st.man.index.insert pindex.failed } }
        (.refused (.invalid .BLOCK_CONSENSUS "bad-pos"))
    | .ok (checked, setStakeSeen) =>
      storeBlock call pindex checked { st with man := { st.man with setStakeSeen } }

/-- `AcceptBlock`. -/
def acceptBlock (call : AcceptCall) (st : AcceptState) :
    Outcome AcceptState KernelFail (Option IndexEntry) :=
  let tests := acceptBlockTests env rules call st
  match tests.result with
  | .error failure => ⟨tests.state, .error (.refused failure)⟩
  | .ok none => ⟨tests.state, .ok none⟩
  | .ok (some pindex) =>
    let stored := acceptBlockStake env stake call pindex tests.state
    ⟨stored.state, stored.result.map some⟩

/-- `ProcessNewBlock` up to the activation of the best chain. -/
def processNewBlock (call : AcceptCall) (st : AcceptState) :
    Outcome AcceptState KernelFail (Option IndexEntry) :=
  let checked := checkBlock env true true true st.block
  let st := { st with block := checked.state }
  match checked.result with
  | .error failure => .fail st (.refused failure)
  | .ok () => acceptBlock env rules stake call st

end

end Patchcoin
