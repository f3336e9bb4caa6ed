import Patchcoin.Chain.Caps

/-!
# Where the coins of the genesis key go

The coins of the genesis key are meant to leave it through claims, and only
coinstakes may spend them until the lock has ended.  Both rules have a gap.

* `checkClaims` returns at once on a block that carries no claims, before it has
  looked at an output.  A block with claims settles every output
  (`genesis_outputs_recorded_iff`).
* The lock is tested with the time of the transaction, if it has one.  The test
  that compares this time with the time of the block cannot be reached, so a
  transaction from after the lock can stand in a block from before its end
  (`genesis_lock_iff`).
-/

namespace Patchcoin

variable {env : Env} {kernel : Kernel} {ctx : Circumstances} {ancestors : IndexChain}
  {st : ConnectState}
variable {pindex : CBlockIndex} {staged : ConnectState}

/-- A transaction spends a coin of the genesis key, from the coins that it sees. -/
def SpendsGenesisCoin (env : Env) (entry : CTransaction × CCoinsView) : Prop :=
  entry.1.isCoinBase = false ∧ spendsGenesisKey env entry.2 entry.1 = true

instance (env : Env) (entry : CTransaction × CCoinsView) :
    Decidable (SpendsGenesisCoin env entry) :=
  inferInstanceAs (Decidable (_ ∧ _))

/-- The output has one of the forms that do not need a claim. -/
def NeedsNoClaim (env : Env) (txout : CTxOut) : Prop :=
  txout.scriptPubKey.empty = true ∨
    (isOpReturn txout.scriptPubKey = true ∧ txout.nValue = 0) ∨
    txout.scriptPubKey = env.params.genesisPubKey

instance (env : Env) (txout : CTxOut) : Decidable (NeedsNoClaim env txout) :=
  inferInstanceAs (Decidable (_ ∨ _))

/-- The output pays the target of a valid claim, and the entry of the block records its
amount under the source of that claim. -/
def RecordedPayout (env : Env) (pindex : CBlockIndex) (txout : CTxOut) : Prop :=
  ∃ (claim : CClaim) (amount : ℕ), (checkedClaim env claim).2 = .OK ∧
    claim.target = txout.scriptPubKey ∧ pindex.nClaims[claim.source]? = some amount ∧
    (amount : ℤ) = txout.value

/-! ## Outputs of a block with claims -/

/-- What is settled when the loop is done has an accepted form or is recorded. -/
theorem Connected.recorded (h : Connected env kernel ctx ancestors st staged pindex)
    (hpool : st.g_claims.Sound env) {txout : CTxOut} (hsettled : Settled env txout
      (connectLoop env ctx ancestors staged).state.toClaimState) :
    NeedsNoClaim env txout ∨ RecordedPayout env pindex txout := by
  obtain ⟨hloop, -, hrecords⟩ := h.payouts hpool
  rcases hsettled with hempty | hreturn | hgenesis | ⟨source, claim, hpaid, hentry, htarget⟩
  · exact .inl (.inl hempty)
  · exact .inl (.inr (.inl hreturn))
  · exact .inl (.inr (.inr hgenesis))
  · right
    obtain ⟨-, checked, hfrom⟩ := hloop.paid.paid source source txout.value hpaid
    obtain rfl : claim = checked := Option.some.inj (hentry.symm.trans hfrom.entry)
    have hbuilt := (hloop.paid.sound source claim hentry).1
    have hvalid : (claim.isValid env).2 = .OK := by rw [hfrom.valid]
    have hinit : claim.m_init = true :=
      Claim.m_init_of_checkFields ((Claim.isValid_eq_ok_iff claim).mp hvalid).fields
    have hsource : claim.m_claim.source = source :=
      (hbuilt.worth hinit).getSource_eq.symm.trans hfrom.source_eq
    have hamount : 0 ≤ txout.value :=
      ((moneyRange_iff _).mp (hloop.range source (source, txout.value) hpaid)).1
    refine ⟨claim.m_claim, txout.value.toNat, hbuilt.isValid_ofCClaim hvalid, htarget, ?_,
      Int.toNat_of_nonneg hamount⟩
    rw [hsource, hrecords source, hpaid]

/-! ## Outputs of a block without claims -/

/-- A block without claims collects no payouts. -/
theorem claims_connectLoop_of_nil (h : st.block.vClaim = []) :
    (connectLoop env ctx ancestors st).state.claims = ∅ := by
  refine connectTxs_claims (P := fun claims => claims.claims = ∅) ?_ rfl
  intro tx view claims hclaims
  rw [h, checkClaims_nil]
  exact hclaims

theorem Connected.nClaims_of_nil (h : Connected env kernel ctx ancestors st staged pindex)
    (hpool : st.g_claims.Sound env) (hnil : st.block.vClaim = []) (source : CScript) :
    pindex.nClaims[source]? = st.pindex.nClaims[source]? := by
  have hstaged : staged.block.vClaim = [] := by rw [CBlock.vClaim_eq_of_content_eq h.content, hnil]
  rw [(h.payouts hpool).2.2 source, claims_connectLoop_of_nil hstaged,
    Std.ExtTreeMap.getElem?_empty]

/-- A new block without claims records no payouts. -/
theorem not_recordedPayout_of_nil (hpool : st.g_claims.Sound env)
    (hnew : st.pindex.nClaims = ∅) (hnil : st.block.vClaim = [])
    (hok : (connectBlock env kernel ctx ancestors false st).result = .ok ())
    (txout : CTxOut) : ¬ RecordedPayout env
      (connectBlock env kernel ctx ancestors false st).state.pindex txout := by
  rintro ⟨claim, amount, -, -, hrecord, -⟩
  obtain ⟨staged, hconnected⟩ := connected_of_ok hok
  rw [hconnected.nClaims_of_nil hpool hnil, hnew, Std.ExtTreeMap.getElem?_empty] at hrecord
  cases hrecord

/-- Every output of the transactions of a block that spend coins of the genesis key is as
described. -/
def GenesisOutputs (env : Env) (st : ConnectState) (Settled : CTxOut → Prop) : Prop :=
  ∀ entry ∈ blockViews env st.pindex st.view st.block.vtx, SpendsGenesisCoin env entry →
    ∀ txout ∈ entry.1.vout, Settled txout

/-- In a block that is connected, each output of the transactions that spend coins of the
genesis key has a form that needs no claim or is a recorded payout, if the block carries claims
or if all these outputs have a form that needs no claim.  If the entry of the block held no
records before, then only if. -/
theorem genesis_outputs_recorded_iff (hpool : st.g_claims.Sound env)
    (hok : (connectBlock env kernel ctx ancestors false st).result = .ok ()) :
    (st.block.vClaim ≠ [] ∨ GenesisOutputs env st (NeedsNoClaim env) →
      GenesisOutputs env st fun txout => NeedsNoClaim env txout ∨ RecordedPayout env
        (connectBlock env kernel ctx ancestors false st).state.pindex txout) ∧
    (st.pindex.nClaims = ∅ →
      (GenesisOutputs env st fun txout => NeedsNoClaim env txout ∨ RecordedPayout env
        (connectBlock env kernel ctx ancestors false st).state.pindex txout) →
      st.block.vClaim ≠ [] ∨ GenesisOutputs env st (NeedsNoClaim env)) := by
  constructor
  · rintro (hne | hkept) entry hentry hspends txout htxout
    · obtain ⟨staged, hconnected⟩ := connected_of_ok hok
      have hsettled := (hconnected.payouts hpool).2.1 entry hentry hspends.1 hne
      exact hconnected.recorded hpool (hsettled txout htxout)
    · exact .inl (hkept entry hentry hspends txout htxout)
  · intro hnew hall
    by_cases hnil : st.block.vClaim = []
    · refine .inr fun entry hentry hspends txout htxout => ?_
      exact (hall entry hentry hspends txout htxout).resolve_right
        (not_recordedPayout_of_nil hpool hnew hnil hok txout)
    · exact .inl hnil

open SmallNet in
theorem genesis_outputs_recorded_snapshotBlock : snapshotBlock.vClaim ≠ [] ∧
      GenesisOutputs (node false false) (second (node false false) snapshotBlock) fun txout =>
        NeedsNoClaim (node false false) txout ∨ RecordedPayout (node false false)
          (connectBlock (node false false) stakeKernel ordinary (genesisChain (node false false))
            false (second (node false false) snapshotBlock)).state.pindex txout := by
  have hclaims : (second (node false false) snapshotBlock).block.vClaim ≠ [] := by decide +kernel
  refine ⟨by decide +kernel, (genesis_outputs_recorded_iff ?_ ?_).1 (.inl hclaims)⟩
  · rw [second, g_claims_onTop]
    exact sound_reach _ _
  · exact passed_iff.mp (by decide +kernel)

open SmallNet in
/-- Inside the claim period, a coinstake takes half of a genesis output away from the
genesis key, and nothing is recorded. -/
theorem genesis_coin_leaves_unclaimed :
    (connectBlock (node false false) stakeKernel ordinary (genesisChain (node false false)) false
        (second (node false false) unclaimedBlock)).result = .ok () ∧
      (unclaimedBlock.nTime.toNat : ℤ) - params.genesisNTime ≤ params.nStakeGenesisLockTime ∧
      ¬ GenesisOutputs (node false false) (second (node false false) unclaimedBlock) fun txout =>
        NeedsNoClaim (node false false) txout ∨ RecordedPayout (node false false)
          (connectBlock (node false false) stakeKernel ordinary (genesisChain (node false false))
            false (second (node false false) unclaimedBlock)).state.pindex txout := by
  have hok : (connectBlock (node false false) stakeKernel ordinary
      (genesisChain (node false false)) false
      (second (node false false) unclaimedBlock)).result = .ok () :=
    passed_iff.mp (by decide +kernel)
  refine ⟨hok, by decide +kernel, fun hall => ?_⟩
  have hpayout : ∃ entry ∈ blockViews (node false false)
      (second (node false false) unclaimedBlock).pindex
      (second (node false false) unclaimedBlock).view
      (second (node false false) unclaimedBlock).block.vtx,
      SpendsGenesisCoin (node false false) entry ∧
        ∃ txout ∈ entry.1.vout, ¬ NeedsNoClaim (node false false) txout := by
    decide +kernel
  obtain ⟨entry, hentry, hspends, txout, htxout, hneeds⟩ := hpayout
  have hsound : (second (node false false) unclaimedBlock).g_claims.Sound (node false false) := by
    rw [second, g_claims_onTop]
    exact sound_reach _ _
  have hnew : (second (node false false) unclaimedBlock).pindex.nClaims = ∅ := by
    rw [second, nClaims_onTop]
  have hnil : (second (node false false) unclaimedBlock).block.vClaim = [] := by
    rw [second, block_onTop]
    rfl
  exact not_recordedPayout_of_nil hsound hnew hnil hok txout
    ((hall entry hentry hspends txout htxout).resolve_left hneeds)

/-! ## The lock -/

/-- The inputs of every transaction of a connected block have been checked, with the
coins that the transaction saw. -/
theorem checkTxInputs_of_connectLoop (hok : (connectLoop env ctx ancestors st).result = .ok ()) :
    ∀ entry ∈ blockViews env st.pindex st.view st.block.vtx, entry.1.isCoinBase = false →
      ∃ txfee, checkTxInputs env entry.2 entry.1 st.pindex.nHeight (txTime entry.1 st.block) =
        .ok txfee := by
  refine (connectTx_forall (P := fun _ => True) (Q := fun entry _ => entry.1.isCoinBase = false →
    ∃ txfee, checkTxInputs env entry.2 entry.1 st.pindex.nHeight (txTime entry.1 st.block) =
      .ok txfee) ?_ trivial hok).2.1
  intro tx _ loop _ hstep
  exact ⟨trivial, fun hcoinbase => ((connectTx_of_ok hstep).2.2 hcoinbase).1, fun _ h => h⟩

/-- A transaction of a connected block that spends a coin of the genesis key is a
coinstake, or the time it is checked with is after the lock. -/
theorem lock_of_spendsGenesisCoin
    (hok : (connectBlock env kernel ctx ancestors false st).result = .ok ())
    {entry : CTransaction × CCoinsView}
    (hentry : entry ∈ blockViews env st.pindex st.view st.block.vtx)
    (hspends : SpendsGenesisCoin env entry) :
    entry.1.isCoinStake = true ∨ env.params.nStakeGenesisLockTime ≤
      ((txTime entry.1 st.block).toNat : ℤ) - env.params.genesisNTime := by
  obtain ⟨staged, hconnected⟩ := connected_of_ok hok
  obtain ⟨hcoinbase, hgenesis⟩ := hspends
  obtain ⟨txfee, hinputs⟩ := checkTxInputs_of_connectLoop hconnected.loop _
    (hconnected.mem_blockViews hentry) hcoinbase
  have htime : txTime entry.1 staged.block = txTime entry.1 st.block := by
    have hheader := CBlock.header_eq_of_content_eq hconnected.content
    unfold txTime
    rw [show staged.block.nTime = st.block.nTime from congrArg CBlockHeader.nTime hheader]
  rw [htime] at hinputs
  obtain ⟨input, hinput, hkey⟩ := List.any_eq_true.mp hgenesis
  have hchecked := checkGenesisKeyInput_of_checkTxInputs hinputs input hinput
  rcases checkGenesisKeyInput_eq_ok_iff.mp hchecked with hother | hstake | hafter
  · exact absurd (beq_iff_eq.mp hkey) hother
  · exact .inl hstake
  · exact .inr hafter

/-- For every block that is connected and has a time before the end of the lock: only
coinstakes spend coins of the genesis key, if and only if no other transaction that
spends one carries a time of its own from after the lock. -/
theorem genesis_lock_iff (hok : (connectBlock env kernel ctx ancestors false st).result = .ok ())
    (htime : (st.block.nTime.toNat : ℤ) - env.params.genesisNTime <
      env.params.nStakeGenesisLockTime) :
    (∀ entry ∈ blockViews env st.pindex st.view st.block.vtx, SpendsGenesisCoin env entry →
      entry.1.isCoinStake = true) ↔
    ∀ entry ∈ blockViews env st.pindex st.view st.block.vtx, SpendsGenesisCoin env entry →
      entry.1.isCoinStake = false → ¬ (entry.1.nTime ≠ 0 ∧
        env.params.nStakeGenesisLockTime ≤
          (entry.1.nTime.toNat : ℤ) - env.params.genesisNTime) := by
  constructor
  · intro hall entry hentry hspends hnot _
    exact Bool.false_ne_true (hnot.symm.trans (hall entry hentry hspends))
  · intro hearly entry hentry hspends
    rcases lock_of_spendsGenesisCoin hok hentry hspends with hstake | hafter
    · exact hstake
    · by_contra hnot
      -- the time of the block is before the end of the lock, so this one is not it
      have hown : entry.1.nTime ≠ 0 := by
        intro hzero
        rw [txTime, if_pos hzero] at hafter
        omega
      rw [txTime, if_neg hown] at hafter
      exact hearly entry hentry hspends (Bool.not_eq_true _ ▸ hnot) ⟨hown, hafter⟩

open SmallNet in
theorem genesis_lock_snapshotBlock :
    (snapshotBlock.nTime.toNat : ℤ) - params.genesisNTime < params.nStakeGenesisLockTime ∧
      ∀ entry ∈ blockViews (node false false) (second (node false false) snapshotBlock).pindex
          (second (node false false) snapshotBlock).view
          (second (node false false) snapshotBlock).block.vtx,
        SpendsGenesisCoin (node false false) entry → entry.1.isCoinStake = true := by
  have hok : (connectBlock (node false false) stakeKernel ordinary
      (genesisChain (node false false)) false
      (second (node false false) snapshotBlock)).result = .ok () :=
    passed_iff.mp (by decide +kernel)
  refine ⟨by decide +kernel, (genesis_lock_iff hok (by decide +kernel)).mpr ?_⟩
  decide +kernel

open SmallNet in
/-- A block from before the end of the lock passes all checks with a transaction that is
no coinstake and spends a genesis output. -/
theorem genesis_coin_leaves_locked :
    (checkBlock (node false false) true true true lateTxBlock).result = .ok () ∧
      (connectBlock (node false false) stakeKernel ordinary (genesisChain (node false false)) false
        (second (node false false) lateTxBlock)).result = .ok () ∧
      (lateTxBlock.nTime.toNat : ℤ) - params.genesisNTime < params.nStakeGenesisLockTime ∧
      ∃ entry ∈ blockViews (node false false) (second (node false false) lateTxBlock).pindex
          (second (node false false) lateTxBlock).view
          (second (node false false) lateTxBlock).block.vtx,
        SpendsGenesisCoin (node false false) entry ∧ entry.1.isCoinStake = false := by
  refine ⟨passed_iff.mp (by decide +kernel), passed_iff.mp (by decide +kernel), by decide +kernel,
    by decide +kernel⟩

end Patchcoin
