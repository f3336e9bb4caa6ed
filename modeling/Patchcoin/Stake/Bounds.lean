import Patchcoin.Chain.AcceptSteps
import Patchcoin.SmallStake

/-!
# The index into the outputs of the staked transaction

`CheckProofOfStake` and `CheckStakeKernelHash` read `txPrev->vout[prevout.n]` for
the output that a coinstake spends first.  The checks before them do not bound
`prevout.n`: `CheckBlock` and `ContextualCheckBlock` never look at the spent
transaction, and the coins are only consulted when the block is connected.  The
hash of the staked transaction is compared, which pins the transaction and with
it the number of its outputs, but not the index.

So the read is out of bounds exactly for a block that passes the tests and names
an output that a transaction of the index does not have.
-/

namespace Patchcoin

variable {env : Env} {rules : HeaderRules} {stake : StakeRules}
variable {call : AcceptCall} {block : CBlock} {prevout : COutPoint} {tx txPrev : CTransaction}
  {ancestors : IndexChain} {pindex : IndexEntry} {view : StakeView} {nBits nTimeTx : UInt32}

/-- The output that a proof-of-stake block stakes: the first input of its coinstake. -/
def stakedPrevout (block : CBlock) : COutPoint :=
  ((coinstake block).vin.head?.map CTxIn.prevout).getD COutPoint.null

/-- Whether a transaction index finds the staked transaction, and finds it to have no
output of the staked number. -/
def StakesBeyondOutputs (env : Env) (g_txindex : Option TxIndex) (prevout : COutPoint) : Prop :=
  ∃ index postx header txPrev, g_txindex = some index ∧
    index.readTx prevout.hash = some (postx, header, txPrev) ∧
    txPrev.getHash env.host.hash256 = prevout.hash ∧ txPrev.vout.length ≤ prevout.n.toNat

/-! ## The two reads -/

/-- The kernel hash reads the output that was already read for its script. -/
theorem checkStakeKernelHash_ne_outOfBounds {blockFrom : CBlockHeader} {nTxPrevOffset : UInt32}
    (hbound : prevout.n.toNat < txPrev.vout.length) :
    checkStakeKernelHash env stake view nBits ancestors blockFrom nTxPrevOffset txPrev prevout
      nTimeTx ≠ .error .outOfBounds := by
  intro h
  unfold checkStakeKernelHash at h
  cases ancestors with
  | nil => cases h
  | cons pindexPrev rest =>
    dsimp only at h
    rw [List.getElem?_eq_getElem hbound] at h
    generalize (if txPrev.nTime = 0 then blockFrom.nTime else txPrev.nTime) = nTimeTxPrev at h
    dsimp only at h
    split at h
    · cases h
    · split at h
      · cases h
      · split at h
        · cases h
        · split at h
          · cases h
          · split at h
            · cases h
            · cases h

theorem KernelFail.onKernel_eq_outOfBounds {failure : KernelFail}
    (h : failure.onKernel = .outOfBounds) : failure = .outOfBounds := by
  unfold KernelFail.onKernel at h
  split at h
  · cases h
  · cases h
  · cases h
  · rfl

theorem checkStakedTx_outOfBounds_iff {postx : CDiskTxPos} {header : CBlockHeader} :
    checkStakedTx env stake view ancestors tx prevout nBits nTimeTx postx header txPrev =
        .error .outOfBounds ↔
      txPrev.getHash env.host.hash256 = prevout.hash ∧ txPrev.vout.length ≤ prevout.n.toNat := by
  unfold checkStakedTx
  by_cases hhash : txPrev.getHash env.host.hash256 = prevout.hash
  · simp only [hhash, ne_eq, not_true_eq_false, if_false, true_and]
    by_cases hbound : prevout.n.toNat < txPrev.vout.length
    · rw [List.getElem?_eq_getElem hbound]
      dsimp only
      refine iff_of_false ?_ (Nat.not_le_of_lt hbound)
      intro h
      split at h
      · cases h
      · split at h
        · next failure hkernel =>
          have hfailure : failure.onKernel = .outOfBounds := Except.error.inj h
          rw [KernelFail.onKernel_eq_outOfBounds hfailure] at hkernel
          exact checkStakeKernelHash_ne_outOfBounds hbound hkernel
        · cases h
    · rw [List.getElem?_eq_none (Nat.le_of_not_lt hbound)]
      simp [Nat.le_of_not_lt hbound]
  · simp [hhash]

theorem checkProofOfStake_outOfBounds_iff {g_txindex : Option TxIndex} :
    checkProofOfStake env stake view g_txindex ancestors tx nBits nTimeTx = .error .outOfBounds ↔
      tx.isCoinStake = true ∧
        StakesBeyondOutputs env g_txindex
          ((tx.vin.head?.map CTxIn.prevout).getD COutPoint.null) := by
  unfold checkProofOfStake StakesBeyondOutputs
  cases hstake : tx.isCoinStake with
  | false => simp
  | true =>
    simp only [Bool.not_true, Bool.false_eq_true, if_false, true_and]
    generalize (tx.vin.head?.map CTxIn.prevout).getD COutPoint.null = prevout
    cases g_txindex with
    | none => simp
    | some index =>
      rw [Option.bind_some]
      cases hread : index.readTx prevout.hash with
      | none => simp [hread]
      | some found =>
        obtain ⟨postx, header, txPrev⟩ := found
        rw [checkStakedTx_outOfBounds_iff]
        simp [hread]

/-! ## The whole acceptance -/

theorem map_eq_error_iff {ε α β : Type} {result : Except ε α} (f : α → β) {failure : ε} :
    result.map f = .error failure ↔ result = .error failure := by
  cases result with
  | error failure' => simp [Except.map]
  | ok value => simp [Except.map]

theorem isCoinStake_coinstake (h : block.isProofOfStake = true) :
    (coinstake block).isCoinStake = true := by
  unfold CBlock.isProofOfStake at h
  unfold coinstake
  split at h
  · next hvtx =>
    rw [hvtx]
    exact h
  · cases h

theorem readsOutOfBounds_iff {man : ChainMan} :
    readsOutOfBounds env stake call man pindex block = true ↔
      block.isProofOfStake = true ∧
        StakesBeyondOutputs env call.g_txindex (stakedPrevout block) := by
  unfold readsOutOfBounds blockProofOfStake
  rw [Bool.and_eq_true, decide_eq_true_iff, checkProofOfStake_outOfBounds_iff]
  constructor
  · rintro ⟨hstake, -, hbeyond⟩
    exact ⟨hstake, hbeyond⟩
  · rintro ⟨hstake, hbeyond⟩
    exact ⟨hstake, isCoinStake_coinstake hstake, hbeyond⟩

theorem acceptBlockStake_outOfBounds_iff {st : AcceptState} :
    (acceptBlockStake env stake call pindex st).result = .error .outOfBounds ↔
      readsOutOfBounds env stake call st.man pindex st.block = true := by
  unfold acceptBlockStake
  cases hreads : readsOutOfBounds env stake call st.man pindex st.block with
  | true => simp [Outcome.fail]
  | false =>
    refine iff_of_false ?_ (by simp)
    intro h
    simp only [Bool.false_eq_true, if_false] at h
    split at h
    · cases h
    · cases h
    · cases h
    · unfold storeBlock at h
      split at h
      · cases h
      · cases h

/-- The tests keep what the stake check reads of a block. -/
theorem stakedPrevout_of_content_eq {block' : CBlock} (h : block'.content = block.content) :
    block'.isProofOfStake = block.isProofOfStake ∧ stakedPrevout block' = stakedPrevout block := by
  have hvtx := CBlock.vtx_eq_of_content_eq h
  constructor
  · unfold CBlock.isProofOfStake
    rw [hvtx]
  · unfold stakedPrevout coinstake
    rw [hvtx]

/-- `AcceptBlock` reads the outputs of the staked transaction beyond their end exactly
for a proof-of-stake block that passes its tests and stakes an output that a
transaction of the index does not have. -/
theorem acceptBlock_outOfBounds_iff (call : AcceptCall) (st : AcceptState) :
    (acceptBlock env rules stake call st).result = .error .outOfBounds ↔
      (∃ pindex, (acceptBlockTests env rules call st).result = .ok (some pindex)) ∧
        st.block.isProofOfStake = true ∧
          StakesBeyondOutputs env call.g_txindex (stakedPrevout st.block) := by
  obtain ⟨hstake, hprevout⟩ := stakedPrevout_of_content_eq
    (@acceptBlockTests_state env rules call st).1
  unfold acceptBlock
  dsimp only
  cases htests : (acceptBlockTests env rules call st).result with
  | error failure => simp
  | ok entry =>
    cases entry with
    | none => simp
    | some pindex =>
      dsimp only
      rw [map_eq_error_iff, acceptBlockStake_outOfBounds_iff, readsOutOfBounds_iff, hstake,
        hprevout]
      simp

/-- A block that stakes the fourth output of the genesis transaction, which has three. -/
theorem SmallNet.stake_beyond_outputs :
    (acceptBlock (SmallNet.node false false) SmallNet.headerRules SmallNet.stakeRules
      SmallNet.acceptCall
      ⟨SmallNet.genesisMan, SmallNet.mintedBlock 1700001000 (SmallNet.genesisPrevout 3)⟩).result =
        .error .outOfBounds := by
  rw [← map_eq_error_iff (fun _ => ())]
  decide +kernel

end Patchcoin
