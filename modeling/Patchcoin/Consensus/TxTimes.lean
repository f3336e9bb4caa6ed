import Patchcoin.Consensus.CheckBlockSteps
import Patchcoin.SmallNet

/-!
# Times of transactions

The ages of coins and the lock of the genesis coins are computed from the times of
transactions, and `CheckBlock` is the place where they would be compared with the time of
the block.  The comparison stands after the `return` of a failed `CheckTransaction`, so it
is never made.  What remains is the test of the coinstake, whose time is that of the block
or, before protocol 0.3, not after it.  The coinbase is only tested in the other direction.

So an accepted block bounds the times of its transactions exactly if the transactions other
than the coinstake happen to be in time.
-/

namespace Patchcoin

variable {env : Env} {block : CBlock} {fCheckPOW fCheckMerkleRoot fCheckSignature : Bool}
variable {tx : CTransaction}

/-- What a new call of `CheckBlock` has tested, whatever it was asked to test. -/
theorem bodyPasses_of_checkBlock (hfresh : block.fChecked = false)
    (hok : (checkBlock env fCheckPOW fCheckMerkleRoot fCheckSignature block).result = .ok ()) :
    BodyPasses env block := by
  rw [checkBlock_of_not_fChecked hfresh, Outcome.andThen_eq_ok_iff] at hok
  obtain ⟨_, htests, -⟩ := hok
  exact bodyPasses_of_ok ((checkBlockTests_ok_iff block).mp htests).2.2

/-- The coinstake of a block that has passed is the second transaction. -/
theorem BodyPasses.eq_second (h : BodyPasses env block) (htx : tx ∈ block.vtx)
    (hstake : tx.isCoinStake = true) : block.vtx[1]? = some tx ∧ block.isProofOfStake = true := by
  have hcoinbase := h.coinbase
  have hstakes := h.stakes
  unfold CBlock.isProofOfStake
  match hvtx : block.vtx with
  | [] =>
    rw [hvtx] at htx
    exact absurd htx List.not_mem_nil
  | [first] =>
    rw [hvtx, List.mem_singleton] at htx
    rw [hvtx, ← htx] at hcoinbase
    have hnot := CTransaction.not_isCoinBase_of_isCoinStake hstake
    exact absurd hcoinbase (by simp [hnot])
  | first :: second :: rest =>
    rw [hvtx, List.mem_cons, List.mem_cons] at htx
    rw [hvtx] at hcoinbase hstakes
    obtain rfl | rfl | hrest := htx
    · have hnot := CTransaction.not_isCoinBase_of_isCoinStake hstake
      exact absurd hcoinbase (by simp [hnot])
    · exact ⟨rfl, hstake⟩
    · exact absurd (hstakes tx hrest) (by simp [hstake])

theorem le_of_checkCoinStakeTimestamp {nTimeBlock nTimeTx : ℕ}
    (h : checkCoinStakeTimestamp env nTimeBlock nTimeTx = true) : nTimeTx ≤ nTimeBlock := by
  unfold checkCoinStakeTimestamp at h
  split_ifs at h
  · exact (of_decide_eq_true h).ge
  · rw [Bool.and_eq_true] at h
    exact of_decide_eq_true h.1

/-- The coinstake of a block that has passed is not later than the block. -/
theorem BodyPasses.stake_in_time (h : BodyPasses env block) (htx : tx ∈ block.vtx)
    (hstake : tx.isCoinStake = true) : tx.nTime ≤ block.nTime := by
  obtain ⟨hsecond, hproof⟩ := h.eq_second htx hstake
  have htime := le_of_checkCoinStakeTimestamp (h.stakeTime hproof)
  rw [hsecond, Option.map_some, Option.getD_some, timeOr] at htime
  rw [UInt32.le_iff_toNat_le]
  split_ifs at htime with hzero
  · rw [hzero]
    exact Nat.zero_le _
  · exact htime

/-- The transactions of an accepted block are not later than the block exactly if this
holds of those that are no coinstake. -/
theorem txTimes_bounded_iff (hfresh : block.fChecked = false)
    (hok : (checkBlock env fCheckPOW fCheckMerkleRoot fCheckSignature block).result = .ok ()) :
    (∀ tx ∈ block.vtx, tx.nTime ≤ block.nTime) ↔
      ∀ tx ∈ block.vtx, tx.isCoinStake = false → tx.nTime ≤ block.nTime := by
  have hbody := bodyPasses_of_checkBlock hfresh hok
  constructor
  · intro hall tx htx _
    exact hall tx htx
  · intro hothers tx htx
    cases hstake : tx.isCoinStake with
    | true => exact hbody.stake_in_time htx hstake
    | false => exact hothers tx htx hstake

namespace SmallNet

/-- The times of the block with a payout to a claim are bounded. -/
theorem txTimes_bounded_snapshotBlock :
    (snapshotBlock.vtx.all fun tx => decide (tx.nTime ≤ snapshotBlock.nTime)) = true := by
  have hbounded := (@txTimes_bounded_iff (node false false) snapshotBlock true true true rfl
    (passed_iff.mp (by decide +kernel))).mpr (by decide +kernel)
  rw [List.all_eq_true]
  intro tx htx
  exact decide_eq_true (hbounded tx htx)

/-- A block passes with a transaction that is twenty-five minutes later than the block. -/
theorem later_transaction_passes : lateTxBlock.fChecked = false ∧
      (checkBlock (node false false) true true true lateTxBlock).result = .ok () ∧
      lateTx ∈ lateTxBlock.vtx ∧ lateTxBlock.nTime < lateTx.nTime :=
  ⟨rfl, passed_iff.mp (by decide +kernel), by decide +kernel, by decide +kernel⟩

end SmallNet

end Patchcoin
