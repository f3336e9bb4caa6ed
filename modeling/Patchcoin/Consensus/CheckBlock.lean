import Patchcoin.Chain.Index
import Patchcoin.Lib.Outcome

/-!
# Checks on a block by itself

`checkBlock` is run several times on the same object on its way into the chain,
and remembers its verdict in the object: `fChecked` makes every later call
return at once.  The same holds for the Merkle root and for the witness
commitment.  The functions here therefore return the block they leave behind.
-/

namespace Patchcoin

/-! ## Transactions -/

def LOCKTIME_THRESHOLD : ℕ := 500000000
def SEQUENCE_FINAL : UInt32 := 0xffffffff

/-- `IsFinalTx`. -/
def isFinalTx (tx : CTransaction) (nBlockHeight nBlockTime : ℕ) : Bool :=
  tx.nLockTime == 0 ||
    decide (tx.nLockTime.toNat <
      if tx.nLockTime.toNat < LOCKTIME_THRESHOLD then nBlockHeight else nBlockTime) ||
    tx.vin.all fun input => input.nSequence == SEQUENCE_FINAL

/-- `IsZeroAllowed`. -/
def isZeroAllowed (nTimeTx : UInt32) : Bool := decide (1447700000 ≤ nTimeTx.toNat)

/-- The output loop of `CheckTransaction`. -/
def checkTxOutputs (tx : CTransaction) : List CTxOut → ℤ → Except TxFail Unit
  | [], _ => .ok ()
  | txout :: rest, nValueOut =>
    if txout.value < 0 then txConsensus "bad-txns-vout-negative"
    else if MAX_MONEY < txout.value then txConsensus "bad-txns-vout-toolarge"
    else if !moneyRange (nValueOut + txout.value) then
      txConsensus "bad-txns-txouttotal-toolarge"
    else if !txout.isEmpty && decide (txout.value < MIN_TXOUT_AMOUNT) &&
        (decide (tx.nVersion.toInt < 3) &&
          !(isZeroAllowed tx.nTime && txout.nValue == 0)) then
      txConsensus "bad-txns-txoutvalue-belowminimum"
    else checkTxOutputs tx rest (nValueOut + txout.value)

/-- `CheckTransaction`. -/
def checkTransaction (tx : CTransaction) : Except TxFail Unit :=
  if tx.vin.isEmpty then txConsensus "bad-txns-vin-empty"
  else if tx.vout.isEmpty then txConsensus "bad-txns-vout-empty"
  else if MAX_BLOCK_WEIGHT < txSize tx * WITNESS_SCALE_FACTOR then
    txConsensus "bad-txns-oversize"
  else match checkTxOutputs tx tx.vout 0 with
    | .error failure => .error failure
    | .ok () =>
      if ¬ (tx.vin.map CTxIn.prevout).Nodup then txConsensus "bad-txns-inputs-duplicate"
      else if tx.isCoinBase then
        let length := (tx.vin.head?.map fun input => input.scriptSig.size).getD 0
        if length < 2 ∨ 100 < length then txConsensus "bad-cb-length" else .ok ()
      else if tx.vin.any fun input => input.prevout.isNull then
        txConsensus "bad-txns-prevout-null"
      else .ok ()

/-- `GetLegacySigOpCount`. -/
def getLegacySigOpCount (tx : CTransaction) : ℕ :=
  (tx.vin.map fun input => input.scriptSig.getSigOpCount false).sum +
    (tx.vout.map fun out => out.scriptPubKey.getSigOpCount false).sum

/-! ## Commitments of the header -/

section

variable (env : Env)

/-- `CheckMerkleRoot`. -/
def checkMerkleRoot (block : CBlock) : Outcome CBlock BlockFail Unit :=
  if block.m_checked_merkle_root then .pass block
  else
    let (hashMerkleRoot2, mutated) := blockMerkleRoot env.host.hash256 block
    if block.hashMerkleRoot ≠ hashMerkleRoot2 then
      .fail block (.invalid .BLOCK_MUTATED "bad-txnmrklroot")
    else if mutated then .fail block (.invalid .BLOCK_MUTATED "bad-txns-duplicate")
    else .pass { block with m_checked_merkle_root := true }

/-- The witness stack of the coinbase.  Both callers have made sure that there is
a coinbase, or fail before they look at it. -/
def coinbaseWitness (block : CBlock) : List (List UInt8) :=
  match block.vtx with
  | coinbase :: _ => (coinbase.vin.head?.map CTxIn.scriptWitness).getD []
  | [] => []

/-- `CheckWitnessMalleation`. -/
def checkWitnessMalleation (block : CBlock) (expect_witness_commitment : Bool) :
    Outcome CBlock BlockFail Unit :=
  let unexpected : Outcome CBlock BlockFail Unit := if block.vtx.any CTransaction.hasWitness then
      .fail block (.invalid .BLOCK_MUTATED "unexpected-witness")
    else .pass block
  if !expect_witness_commitment then unexpected
  else if block.m_checked_witness_commitment then .pass block
  else match getWitnessCommitment block with
    | none => unexpected
    | some commitment =>
      match coinbaseWitness block with
      | [nonce] =>
        if nonce.length ≠ 32 then .fail block (.invalid .BLOCK_MUTATED "bad-witness-nonce-size")
        else
          let hashWitness := env.host.hash256
            ((blockWitnessMerkleRoot env.host.hash256 block).1.toBytes ++ nonce)
          if hashWitness.toBytes ≠ (commitment.scriptPubKey.bytes.drop 6).take 32 then
            .fail block (.invalid .BLOCK_MUTATED "bad-witness-merkle-match")
          else .pass { block with m_checked_witness_commitment := true }
      | _ => .fail block (.invalid .BLOCK_MUTATED "bad-witness-nonce-size")

/-- `IsBlockMutated`: the block with what it now remembers, and the verdict. -/
def isBlockMutated (block : CBlock) (check_witness_root : Bool) : CBlock × Bool :=
  let merkle := checkMerkleRoot env block
  match merkle.result with
  | .error _ => (merkle.state, true)
  | .ok () =>
    if !(block.vtx.head?.map CTransaction.isCoinBase).getD false then
      (merkle.state, block.vtx.any fun tx => txSize tx == 64)
    else
      let witness := checkWitnessMalleation env merkle.state check_witness_root
      (witness.state, !passed witness.result)

/-! ## CheckBlock -/

/-- `CheckBlockSignature`. -/
def checkBlockSignature (block : CBlock) : Bool :=
  let hash := block.getHash env.host.hash256
  if hash = env.params.hashGenesisBlock then block.vchBlockSig.isEmpty
  else if !block.isProofOfStake then false
  else match (block.vtx.getD 1 ⟨[], [], 0, 0, 0⟩).vout[1]? with
    | none => false
    | some txout =>
      match solver txout.scriptPubKey with
      | (.PUBKEY, [vchPubKey]) =>
        !block.vchBlockSig.isEmpty && env.host.verify vchPubKey hash block.vchBlockSig
      | _ => false

/-- `CheckCoinStakeTimestamp`. -/
def checkCoinStakeTimestamp (nTimeBlock nTimeTx : ℕ) : Bool :=
  if isProtocolV03 env.params nTimeTx then decide (nTimeBlock = nTimeTx)
  else decide (nTimeTx ≤ nTimeBlock) &&
    decide (nTimeBlock ≤ nTimeTx + MAX_FUTURE_BLOCK_TIME_PREV9)

/-- A time of a transaction that may be absent. -/
def timeOr (nTime : UInt32) (blockTime : ℕ) : ℕ := if nTime = 0 then blockTime else nTime.toNat

/-- The transaction loop of `CheckBlock`.  The comparison of the block time with
the time of the transaction stands after the `return` of a failed
`CheckTransaction` and is never reached. -/
def checkTransactions : List CTransaction → Except BlockFail Unit
  | [] => .ok ()
  | tx :: rest =>
    match checkTransaction tx with
    | .error failure => .error failure.toBlockFail
    | .ok () => checkTransactions rest

/-- The tests of `CheckBlock` between the Merkle root and `fChecked`. -/
def checkBlockBody (block : CBlock) : Except BlockFail Unit :=
  let blockTime := block.nTime.toNat
  if block.vtx.isEmpty ∨ MAX_BLOCK_WEIGHT < block.vtx.length * WITNESS_SCALE_FACTOR ∨
      MAX_BLOCK_WEIGHT < blockSize block * WITNESS_SCALE_FACTOR then
    blockConsensus "bad-blk-length"
  else if !(block.vtx.head?.map CTransaction.isCoinBase).getD false then
    blockConsensus "bad-cb-missing"
  else if (block.vtx.drop 1).any CTransaction.isCoinBase then blockConsensus "bad-cb-multiple"
  else if (block.vtx.drop 2).any CTransaction.isCoinStake then blockConsensus "bad-cs-missing"
  else if block.isProofOfStake &&
      !((block.vtx.head?.bind fun tx => tx.vout.head?).map CTxOut.isEmpty).getD false then
    blockConsensus "bad-cb-notempty"
  else if timeOr ((block.vtx.head?.map CTransaction.nTime).getD 0) blockTime +
      (if isProtocolV09 env.params blockTime then MAX_FUTURE_BLOCK_TIME
        else MAX_FUTURE_BLOCK_TIME_PREV9) < blockTime then
    blockConsensus "bad-cb-time"
  else if block.isProofOfStake && !checkCoinStakeTimestamp env blockTime
      (timeOr ((block.vtx[1]?.map CTransaction.nTime).getD 0) blockTime) then
    blockConsensus "bad-cs-time"
  else match checkTransactions block.vtx with
    | .error failure => .error failure
    | .ok () =>
      if MAX_BLOCK_SIGOPS_COST <
          (block.vtx.map getLegacySigOpCount).sum * WITNESS_SCALE_FACTOR then
        blockConsensus "bad-blk-sigops"
      else .ok ()

/-- The tests of `CheckBlock` before the Merkle root. -/
def checkBlockKind (fCheckPOW : Bool) (block : CBlock) : Except BlockFail Unit :=
  let isGenesis := block.getHash env.host.hash256 == env.params.hashGenesisBlock
  if !isGenesis && block.isProofOfWork then .error .silent
  else if fCheckPOW && !block.isProofOfStake && !isGenesis then
    .error (.invalid .BLOCK_INVALID_HEADER "pow")
  else if env.params.signet_blocks && fCheckPOW &&
      !env.host.checkSignetBlockSolution block.toCBlockHeader block.vtx then
    blockConsensus "bad-signet-blksig"
  else .ok ()

/-- All tests of `CheckBlock` before the signature. -/
def checkBlockTests (fCheckPOW fCheckMerkleRoot : Bool) (block : CBlock) :
    Outcome CBlock BlockFail Unit :=
  (Outcome.lift block (checkBlockKind env fCheckPOW block)).andThen fun _ block =>
    (if fCheckMerkleRoot then checkMerkleRoot env block else .pass block).andThen fun _ block =>
      .lift block (checkBlockBody env block)

/-- `CheckBlock`. -/
def checkBlock (fCheckPOW fCheckMerkleRoot fCheckSignature : Bool) (block : CBlock) :
    Outcome CBlock BlockFail Unit :=
  if block.fChecked then .pass block
  else (checkBlockTests env fCheckPOW fCheckMerkleRoot block).andThen fun _ block =>
    -- the verdict is remembered before the signature has been looked at
    let block := if fCheckPOW && fCheckMerkleRoot then { block with fChecked := true } else block
    if fCheckMerkleRoot && fCheckSignature &&
        (block.isProofOfStake || !isBTC16BIPsEnabled env.params block.nTime.toNat) &&
        !checkBlockSignature env block then
      .fail block (.invalid .BLOCK_CONSENSUS "bad-blk-sign")
    else .pass block

/-! ## ContextualCheckBlock -/

/-- Whether the rules taken over from Bitcoin 0.16 hold after the given chain. -/
def enforceBTC16BIPs (ancestors : IndexChain) : Bool :=
  (ancestors.head?.map fun pindexPrev =>
    isBTC16BIPsEnabled env.params pindexPrev.nTime.toNat).getD false

/-- The tests of `ContextualCheckBlock` before the witness data. -/
def contextualTests (ancestors : IndexChain) (block : CBlock) : Except BlockFail Unit :=
  let nHeight := (ancestors.head?.map fun pindexPrev => pindexPrev.nHeight + 1).getD 0
  let nLockTimeCutoff :=
    if enforceBTC16BIPs env ancestors then getMedianTimePast ancestors else block.nTime.toNat
  let expect := (CScript.mk []).pushInt64 nHeight
  let scriptSig := ((block.vtx.head?.bind fun tx => tx.vin.head?).map CTxIn.scriptSig).getD ⟨[]⟩
  if !block.vtx.all fun tx => isFinalTx tx nHeight nLockTimeCutoff then
    blockConsensus "bad-txns-nonfinal"
  else if ancestors ≠ [] ∧ 2 ≤ block.nVersion.toInt ∧
      scriptSig.bytes.take expect.size ≠ expect.bytes then blockConsensus "bad-cb-height"
  else .ok ()

/-- `ContextualCheckBlock`, on a block whose parent heads the given chain. -/
def contextualCheckBlock (ancestors : IndexChain) (block : CBlock) :
    Outcome CBlock BlockFail Unit :=
  (Outcome.lift block (contextualTests env ancestors block)).andThen fun _ block =>
    (checkWitnessMalleation env block (enforceBTC16BIPs env ancestors)).andThen fun _ block =>
      if MAX_BLOCK_WEIGHT < getBlockWeight block then
        .fail block (.invalid .BLOCK_CONSENSUS "bad-blk-weight")
      else .pass block

end

end Patchcoin
