import Patchcoin.SmallMint

/-!
# The time of a block that was made

The header has to carry the time of the coinstake.  The coinstake is only used if its time is
at least the least time that the previous blocks allow, and the coinbase takes its time, so the
time of the header can only be raised by the transactions of the memory pool.  These were
admitted up to the time at which the block was begun.  A transaction that is newer than the
kernel makes the time of the header differ from that of the coinstake
(`nTime_fillBlock_eq_iff`), and the block that was made fails its own test.
-/

namespace Patchcoin

open BlockAssembler

variable {env : Env} {stake : StakeRules} {wallet : CWallet} {call : MintCall}
  {assembler : BlockAssembler} {created : CreatedStake} {attempts : ℕ}

/-- `CreateNewBlock` comes to the point where it fills in the header. -/
structure Builds (env : Env) (stake : StakeRules) (wallet : CWallet) (call : MintCall)
    (assembler : BlockAssembler) (attempts : ℕ) (created : CreatedStake) : Prop where
  tip : call.view.m_chain ≠ []
  searches : assembler.nLastCoinStakeSearchTime < call.now.toNat
  creates : createCoinStake? env stake wallet (assembler.stakeCall env call) attempts =
    some (.ok created)
  minTime_le : minTime env call ≤ created.txNew.nTime.toNat

theorem Builds.createNewBlock? (h : Builds env stake wallet call assembler attempts created) :
    assembler.createNewBlock? env stake wallet call attempts =
      some (assembler.finishNewBlock env call created) := by
  unfold BlockAssembler.createNewBlock?
  rw [if_neg h.tip, if_neg (not_le.mpr h.searches), h.creates]
  dsimp only
  rw [if_pos h.minTime_le]

/-! ## The greatest time -/

theorem foldl_max_le_iff {times : List ℕ} {start bound : ℕ} :
    times.foldl max start ≤ bound ↔ start ≤ bound ∧ ∀ time ∈ times, time ≤ bound := by
  induction times generalizing start with
  | nil => simp
  | cons time rest ih =>
    rw [List.foldl_cons, ih, max_le_iff, List.forall_mem_cons, and_assoc]

theorem getMaxTransactionTime_le_iff {vtx : List CTransaction} {bound : ℕ} :
    getMaxTransactionTime vtx ≤ bound ↔ ∀ tx ∈ vtx, tx.nTime.toNat ≤ bound := by
  unfold getMaxTransactionTime
  rw [foldl_max_le_iff]
  simp

theorem getMaxTransactionTime_lt (vtx : List CTransaction) :
    getMaxTransactionTime vtx < 2 ^ 32 := by
  have hle : getMaxTransactionTime vtx ≤ 2 ^ 32 - 1 := by
    rw [getMaxTransactionTime_le_iff]
    intro tx _
    have hlt := tx.nTime.toNat_lt
    omega
  omega

/-- The transactions of the block: the coinbase, the coinstake and the packages. -/
theorem vtx_fillBlock (assembler : BlockAssembler) (env : Env) (call : MintCall)
    (created : CreatedStake) :
    ∃ coinbase, coinbase.nTime = created.txNew.nTime ∧ (assembler.fillBlock env call created).vtx =
      coinbase :: created.txNew :: (assembler.selected env call).vtx := by
  refine ⟨_, ?_, rfl⟩
  rfl

/-- The greatest time is that of the coinstake unless a package is newer. -/
theorem getMaxTransactionTime_fillBlock (assembler : BlockAssembler) (env : Env) (call : MintCall)
    (created : CreatedStake) : created.txNew.nTime.toNat ≤
        getMaxTransactionTime (assembler.fillBlock env call created).vtx ∧
      (getMaxTransactionTime (assembler.fillBlock env call created).vtx ≤
          created.txNew.nTime.toNat ↔
        ∀ tx ∈ (assembler.selected env call).vtx, tx.nTime ≤ created.txNew.nTime) := by
  obtain ⟨coinbase, htime, hvtx⟩ := vtx_fillBlock assembler env call created
  rw [hvtx]
  constructor
  · exact getMaxTransactionTime_le_iff.mp le_rfl created.txNew (by simp)
  · rw [getMaxTransactionTime_le_iff, List.forall_mem_cons, List.forall_mem_cons, htime]
    simp [UInt32.le_iff_toNat_le]

/-! ## The header -/

section

variable (hmin : minTime env call ≤ created.txNew.nTime.toNat)
    (hstake : (assembler.fillBlock env call created).isProofOfStake = true)
include hmin hstake

/-- The time of the header is the greatest time of the transactions. -/
theorem nTime_fillBlock : (assembler.fillBlock env call created).nTime.toNat =
      getMaxTransactionTime (assembler.fillBlock env call created).vtx := by
  have hle := (getMaxTransactionTime_fillBlock assembler env call created).1
  have hlt := getMaxTransactionTime_lt (assembler.fillBlock env call created).vtx
  have htime : (assembler.fillBlock env call created).nTime =
      UInt32.ofInt (headerTime env call (assembler.fillBlock env call created).vtx) := by
    exact congrArg UInt32.ofInt (if_pos hstake)
  have hheader : headerTime env call (assembler.fillBlock env call created).vtx =
      getMaxTransactionTime (assembler.fillBlock env call created).vtx := by
    unfold headerTime
    unfold minTime at hmin
    dsimp only at hmin ⊢
    rw [max_le_iff] at hmin
    omega
  rw [htime, hheader]
  unfold UInt32.ofInt
  rw [UInt32.toNat_ofNat']
  omega

/-- The header has the time of the coinstake unless a transaction of the block is newer. -/
theorem nTime_fillBlock_eq_iff :
    (assembler.fillBlock env call created).nTime = created.txNew.nTime ↔
      ∀ tx ∈ (assembler.selected env call).vtx, tx.nTime ≤ created.txNew.nTime := by
  obtain ⟨hle, hiff⟩ := getMaxTransactionTime_fillBlock assembler env call created
  rw [← hiff, ← UInt32.toNat_inj, nTime_fillBlock hmin hstake]
  exact ⟨fun h => h.le, fun h => le_antisymm h hle⟩

end

/-- A coinstake in a block that was made has a time. -/
theorem Builds.nTime_ne_zero (h : Builds env stake wallet call assembler attempts created) :
    created.txNew.nTime ≠ 0 := by
  intro hzero
  have hmin := h.minTime_le
  rw [hzero] at hmin
  unfold minTime at hmin
  rw [max_le_iff] at hmin
  have htime : (0 : UInt32).toNat = 0 := rfl
  omega

/-- The block that is filled in has the time of its coinstake exactly if none of its
transactions is newer.  Then `CheckCoinStakeTimestamp` accepts it; since version 0.3 it accepts no
other block. -/
theorem minted_block_time_iff (h : Builds env stake wallet call assembler attempts created)
    (hstake : (assembler.fillBlock env call created).isProofOfStake = true) :
    assembler.createNewBlock? env stake wallet call attempts =
        some (assembler.finishNewBlock env call created) ∧
      ((assembler.fillBlock env call created).nTime = created.txNew.nTime ↔
        ∀ tx ∈ (assembler.selected env call).vtx, tx.nTime ≤ created.txNew.nTime) ∧
      ((∀ tx ∈ (assembler.selected env call).vtx, tx.nTime ≤ created.txNew.nTime) →
        checkCoinStakeTimestamp env (assembler.fillBlock env call created).nTime.toNat
          (timeOr created.txNew.nTime
            (assembler.fillBlock env call created).nTime.toNat) = true) ∧
      (isProtocolV03 env.params created.txNew.nTime.toNat = true →
        (checkCoinStakeTimestamp env (assembler.fillBlock env call created).nTime.toNat
            (timeOr created.txNew.nTime
              (assembler.fillBlock env call created).nTime.toNat) = true ↔
          ∀ tx ∈ (assembler.selected env call).vtx, tx.nTime ≤ created.txNew.nTime)) := by
  have htime := nTime_fillBlock_eq_iff h.minTime_le hstake
  have hor (blockTime : ℕ) : timeOr created.txNew.nTime blockTime = created.txNew.nTime.toNat :=
    if_neg h.nTime_ne_zero
  refine ⟨h.createNewBlock?, htime, fun hall => ?_, fun hprotocol => ?_⟩
  · rw [hor, htime.mpr hall]
    unfold checkCoinStakeTimestamp
    split_ifs <;> simp
  · rw [hor, ← htime, ← UInt32.toNat_inj]
    unfold checkCoinStakeTimestamp
    rw [if_pos hprotocol, decide_eq_true_iff]

namespace SmallNet

/-- A transaction that came while the kernel was searched for: the header gets its time, and
with the test of the block `CreateNewBlock` throws. -/
theorem newer_transaction_moves_time :
    createCoinStake? mintNode mintRules (mintWallet [genesisCoin 0] [])
        ((mintAssembler false 1700000303 [pooledTx 1700000303]).stakeCall mintNode
          (mintCall 1700000303)) 1 = some (.ok lateStake) ∧
      (∃ block, (mintAssembler false 1700000303 [pooledTx 1700000303]).createNewBlock? mintNode
            mintRules (mintWallet [genesisCoin 0] []) (mintCall 1700000303) 1 =
          some (.made block) ∧
        block.isProofOfStake = true ∧ block.vtx[1]? = some lateStake.txNew ∧
        lateStake.txNew.nTime = 1700000298 ∧ block.nTime = 1700000303 ∧
        checkCoinStakeTimestamp mintNode block.nTime.toNat
          (timeOr lateStake.txNew.nTime block.nTime.toNat) = false) ∧
      (mintAssembler true 1700000303 [pooledTx 1700000303]).createNewBlock? mintNode mintRules
        (mintWallet [genesisCoin 0] []) (mintCall 1700000303) 1 = some .thrown := by
  refine ⟨by decide +kernel,
    ⟨(mintAssembler false 1700000303 [pooledTx 1700000303]).fillBlock mintNode
      (mintCall 1700000303) lateStake, ?_⟩, by decide +kernel⟩
  decide +kernel

/-- With a transaction that is as old as the kernel the header has the time of the coinstake. -/
theorem older_transaction_keeps_time :
    ((mintAssembler false 1700000303 [pooledTx 1700000298]).fillBlock mintNode
      (mintCall 1700000303) lateStake).nTime = lateStake.txNew.nTime := by
  have hbuilds : Builds mintNode mintRules (mintWallet [genesisCoin 0] []) (mintCall 1700000303)
      (mintAssembler false 1700000303 [pooledTx 1700000298]) 1 lateStake :=
    ⟨by decide +kernel, by decide +kernel, by decide +kernel, by decide +kernel⟩
  exact (minted_block_time_iff hbuilds (by decide +kernel)).2.1.mpr (by decide +kernel)

end SmallNet

end Patchcoin
