import Patchcoin.SmallMint

/-!
# Whether consensus accepts the kernel of the minter

The wallet looks for a kernel with `CheckStakeKernelHash`, and `CheckProofOfStake` computes the
same hash again when the block is checked.  On the chain that the coinstake was made for the two
agree.  What else is tested, the form of the transaction and the script of the output that is
staked, does not depend on the search (`checkProofOfStake_created_iff`).
-/

namespace Patchcoin

open StakePlan List CTxIn

variable {env : Env} {stake : StakeRules} {wallet : CWallet} {call : MintCall} {plan : StakePlan}

/-! ## The kernel -/

section Kernel

variable {g_txindex : TxIndex} {coins inputs : List COutput} {found : FoundKernel}

theorem searchTimes_found {pcoin : COutput} {postx : CDiskTxPos} {header : CBlockHeader}
    {tx : CTransaction} {times : List ℕ}
    (h : searchTimes env stake wallet call pcoin postx header tx times = .ok (some found)) :
    found.kernel = pcoin ∧ kernelScripts wallet call pcoin.txout.scriptPubKey =
        some (found.scriptPubKeyOut, found.minterOut) ∧
      ∃ hash, checkStakeKernelHash env stake call.view call.nBits call.view.m_chain header
        (postx.nTxOffset + NORMAL_SERIALIZE_SIZE) tx pcoin.outpoint
        (call.now - UInt32.ofNat found.n) = .ok hash := by
  induction times with
  | nil =>
    rw [searchTimes] at h
    cases h
  | cons n rest ih =>
    rw [searchTimes] at h
    split at h
    · split at h
      · cases h
      · exact ih h
    · next hash hkernel =>
      obtain ⟨scripts, hscripts, rfl⟩ := Option.map_eq_some_iff.mp (Except.ok.inj h)
      exact ⟨rfl, hscripts, hash, hkernel⟩

/-- A kernel that is found passes `CheckStakeKernelHash` with what the index has about it. -/
theorem searchKernel_found
    (h : searchKernel env stake wallet call g_txindex coins = .ok (some found)) :
    kernelScripts wallet call found.kernel.txout.scriptPubKey =
        some (found.scriptPubKeyOut, found.minterOut) ∧
      ∃ postx header tx, g_txindex.readTx found.kernel.outpoint.hash = some (postx, header, tx) ∧
        ∃ hash, checkStakeKernelHash env stake call.view call.nBits call.view.m_chain header
          (postx.nTxOffset + NORMAL_SERIALIZE_SIZE) tx found.kernel.outpoint
          (call.now - UInt32.ofNat found.n) = .ok hash := by
  induction coins with
  | nil =>
    rw [searchKernel] at h
    cases h
  | cons pcoin rest ih =>
    rw [searchKernel] at h
    split at h
    · exact ih h
    · next postx hposition =>
      split at h
      · cases h
      · next position header tx hread =>
        split_ifs at h
        · exact ih h
        · split at h
          · cases h
          · next htimes =>
            cases h
            obtain ⟨rfl, hscripts, hkernel⟩ := searchTimes_found htimes
            have hsame := position_of_readTx hread
            rw [hposition, Option.some.injEq] at hsame
            exact ⟨hscripts, position, header, tx, hread, hsame ▸ hkernel⟩
          · exact ih h

/-- Inputs are only added after the kernel. -/
theorem combineInputs_prefix {held : Bool} {nAllowedBalance : ℤ} {st st' : StakeInputs}
    (h : combineInputs wallet call g_txindex found held nAllowedBalance coins st = .ok st') :
    st.inputs <+: st'.inputs := by
  induction coins generalizing st with
  | nil =>
    rw [combineInputs] at h
    cases h
    exact prefix_rfl
  | cons pcoin rest ih =>
    rw [combineInputs] at h
    split at h
    · exact ih h
    · split_ifs at h
      · cases h
        exact prefix_rfl
      · cases h
        exact prefix_rfl
      · cases h
        exact prefix_rfl
      · exact ih h
      · exact (prefix_append _ _).trans (ih h)
      · exact ih h

end Kernel

/-! ## The inputs -/

/-- The attempts do not change which coins are spent, nor the time. -/
theorem run_prevouts {attempts : ℕ} {vin : List CTxIn} {built : BuiltStake}
    (h : Loop.run (plan.attempt env wallet) attempts { vin } = some (.ok built)) :
    built.txNew.vin.map prevout = vin.map prevout ∧
      built.txNew.nTime = plan.nTime := by
  refine Loop.run_ok_induction
    (I := fun st : StakeLoop => st.vin.map prevout = vin.map prevout)
    (Q := fun built => built.txNew.vin.map prevout = vin.map prevout ∧
      built.txNew.nTime = plan.nTime) ?_ ?_ rfl h
  · intro st next hst hagain
    obtain ⟨outputs, vin', -, hvin, rfl, -⟩ := attempt_of_again hagain
    exact hvin.trans hst
  · intro st built hst hleft
    obtain ⟨outputs, vin', -, hvin, -, rfl, -⟩ := attempt_of_leave hleft
    exact ⟨hvin.trans hst, rfl⟩

theorem prevouts_newInputs (inputs : List COutput) :
    (newInputs inputs).map prevout = inputs.map COutput.outpoint := by
  unfold newInputs
  rw [map_map]
  rfl

/-! ## The check -/

variable {attempts : ℕ} {created : CreatedStake} {inputs : List COutput} {nMinFee : ℤ}

/-- The output that a transaction stakes, as the index has it, is one that it may spend. -/
def MayStake (env : Env) (stake : StakeRules) (g_txindex : Option TxIndex) (kernel : COutput)
    (tx : CTransaction) : Prop :=
  ∃ postx header txPrev prevOut,
    (g_txindex.bind fun index => index.readTx kernel.outpoint.hash) =
        some (postx, header, txPrev) ∧
      txPrev.getHash env.host.hash256 = kernel.outpoint.hash ∧
      txPrev.vout[kernel.outpoint.n.toNat]? = some prevOut ∧ stake.verifyScript tx prevOut = true

/-- `CheckProofOfStake` accepts the kernel of a coinstake on the chain that it was made for.
What it can still refuse is the form of the transaction or the output that is staked. -/
theorem checkProofOfStake_created_iff
    (h : createCoinStake? env stake wallet call attempts = some (.ok created))
    (hbuilt : created.built = some (inputs, nMinFee)) :
    (∃ hash, checkProofOfStake env stake call.view call.g_txindex call.view.m_chain created.txNew
        call.nBits created.txNew.nTime = .ok hash) ↔
      created.txNew.isCoinStake = true ∧ ∃ kernel, inputs.head? = some kernel ∧
        MayStake env stake call.g_txindex kernel created.txNew := by
  obtain ⟨plan, hplan, -, hrun⟩ := created_of_some h hbuilt
  obtain ⟨g_txindex, coins, nAllowedBalance, found, hindex, -, -, hfound, hplanned⟩ :=
    planned_of_prepareStake hplan
  obtain ⟨-, postx, header, txPrev, hread, hash, hkernel⟩ := searchKernel_found hfound
  obtain ⟨nCredit, hcombined, -⟩ := hplanned.combined
  obtain ⟨others, rfl⟩ := combineInputs_prefix hcombined
  obtain ⟨hvin, htime⟩ := run_prevouts hrun
  dsimp only at hvin htime
  have hprevout : (created.txNew.vin.head?.map prevout).getD COutPoint.null =
      found.kernel.outpoint := by
    rw [← head?_map, hvin, prevouts_newInputs]
    rfl
  have hread' : (call.g_txindex.bind fun index => index.readTx found.kernel.outpoint.hash) =
      some (postx, header, txPrev) := by
    rw [hindex]
    exact hread
  unfold checkProofOfStake checkStakedTx
  rw [hprevout, htime, hplanned.nTime]
  dsimp only
  rw [hread']
  dsimp only
  rw [hkernel]
  constructor
  · rintro ⟨found', hok⟩
    split_ifs at hok with hstake hhash
    split at hok
    · cases hok
    · next prevOut hout =>
      split_ifs at hok with hverify
      refine ⟨by simpa using hstake, _, rfl, postx, header, txPrev, prevOut, hread', ?_, hout, ?_⟩
      · exact not_not.mp hhash
      · simpa using hverify
  · rintro ⟨hstake, kernel, hhead, postx', header', txPrev', prevOut, hreads, hhash, hout, hverify⟩
    obtain rfl : found.kernel = kernel := Option.some.inj hhead
    rw [hread'] at hreads
    cases hreads
    refine ⟨hash, ?_⟩
    rw [hstake, hhash, hout]
    simp [hverify]

namespace SmallNet

/-- The coinstake that the wallet makes for a pool in two attempts. -/
def mintAttempt (env : Env) (g_claims : ClaimPool) : Option (Except BlockFail CreatedStake) :=
  createCoinStake? env mintRules (mintWallet [genesisCoin 0] [])
    ((mintAssembler false 1700000303 []).stakeCall env { mintCall 1700000303 with g_claims }) 2

/-- The kernel that was found five seconds before the call is accepted. -/
theorem single_kernel_is_accepted :
    let call := crowdCall 1 (10 * COIN)
    ∃ hash, checkProofOfStake (crowdNode 1 (10 * COIN)) mintRules call.view call.g_txindex
      call.view.m_chain singleStake.txNew call.nBits singleStake.txNew.nTime = .ok hash := by
  have hcreated : mintAttempt (crowdNode 1 (10 * COIN)) (crowdClaims 1 (10 * COIN)) =
      some (.ok singleStake) := by decide +kernel
  have hread : ((crowdCall 1 (10 * COIN)).g_txindex.bind fun index =>
      index.readTx (genesisCoin 0).outpoint.hash).map (fun found => found.2.2) =
        some genesisTx := by decide +kernel
  obtain ⟨⟨postx, header, _⟩, hread, rfl⟩ := Option.map_eq_some_iff.mp hread
  refine (checkProofOfStake_created_iff hcreated rfl).mpr
    ⟨by decide +kernel, genesisCoin 0, rfl, postx, header, _, genesisOut, hread, ?_, ?_, rfl⟩
  · decide +kernel
  · decide +kernel

end SmallNet

end Patchcoin
