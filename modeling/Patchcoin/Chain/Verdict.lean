import Patchcoin.Chain.Accept
import Patchcoin.Claim.Tidy

/-!
# The verdict of the claim check

`CheckClaims` is meant to say of every transaction whether it is valid: it returns true,
or it returns false and sets the validation state to invalid.  Then `ConnectTip` marks
the entry of the block as failed, and `FindMostWorkChain` never comes back to it.

There is one place where it does neither on a tidy pool.  The payload of an `OP_RETURN` output is
deserialized as a vector of positions, and the stream throws if it ends too early or if
the count is not canonical.  The exception leaves `ConnectBlock`, `ConnectTip` and
`ActivateBestChain`; the entry of the block keeps its status, so that the next call tries
the same block again.

Every function below `CheckClaims` has a verdict unless it comes to such an output
(`checkClaims_hasVerdict_iff`), and a block whose claim check fails is dropped exactly if
it has one (`claims_verdict_iff`).  On a pool that is not tidy an output may also be attributed
to an entry without a source, and `GetSource` then reads through a null pointer; tidy pools
rule this out (`not_reachesNull`).
-/

namespace Patchcoin

open Outcome

variable {env : Env} {kernel : Kernel} {ctx : Circumstances} {ancestors : IndexChain}
  {view : CCoinsView} {tx : CTransaction} {nTimeTx : UInt32} {vClaim : List CClaim}
  {txout : CTxOut} {st : ClaimState} {α : Type}
variable {queue : List UInt16} {loop : OutputLoop} {failure : TxFail}

/-- A check returns true, or false with a consensus failure. -/
def HasVerdict (result : Except TxFail α) : Prop :=
  ∀ failure, result = .error failure → ∃ reason, failure = .invalid .TX_CONSENSUS reason

@[simp] theorem hasVerdict_ok (value : α) : HasVerdict (.ok value : Except TxFail α) :=
  fun _ h => absurd h (by simp)

@[simp] theorem hasVerdict_error_iff : HasVerdict (.error failure : Except TxFail α) ↔
      ∃ reason, failure = .invalid .TX_CONSENSUS reason := by
  constructor
  · exact fun h => h failure rfl
  · rintro h _ ⟨⟩
    exact h

@[simp] theorem hasVerdict_txConsensus (reason : String) :
    HasVerdict (txConsensus reason : Except TxFail α) :=
  hasVerdict_error_iff.mpr ⟨reason, rfl⟩

/-! ## Announcements that cannot be read -/

/-- An announcement whose payload is not a vector of positions. -/
def unreadable (env : Env) (nTimeTx : UInt32) (txout : CTxOut) : Bool :=
  decide (txout.nValue = 0) && !isBtcAccepted env nTimeTx && isOpReturn txout.scriptPubKey &&
    match getScriptOp txout.scriptPubKey.bytes with
    | none => false
    | some (_, _, next) =>
      match getScriptOp next with
      | none => false
      | some (_, payload, _) => (readQueue payload).isNone

theorem checkOtherOutput_of_unreadable (h : unreadable env nTimeTx txout = true) :
    checkOtherOutput env ancestors nTimeTx txout queue = .error .thrown := by
  unfold unreadable at h
  simp only [Bool.and_eq_true, decide_eq_true_eq, Bool.not_eq_true'] at h
  obtain ⟨⟨⟨hvalue, hbtc⟩, hreturn⟩, hpayload⟩ := h
  unfold checkOtherOutput
  rw [if_neg (by simp [checkClaimOutputFormat, hreturn]), if_pos hreturn]
  unfold checkOpReturn
  rw [if_neg (not_not.mpr hvalue), hbtc, if_neg Bool.false_ne_true]
  cases hfirst : getScriptOp txout.scriptPubKey.bytes with
  | none => simp [hfirst] at hpayload
  | some first =>
    rw [hfirst] at hpayload
    dsimp only at hpayload ⊢
    cases hsecond : getScriptOp first.2.2 with
    | none => simp [hsecond] at hpayload
    | some second =>
      rw [hsecond] at hpayload
      dsimp only at hpayload ⊢
      rw [Option.isNone_iff_eq_none.mp hpayload]

theorem checkOpReturn_hasVerdict (hreturn : isOpReturn txout.scriptPubKey = true)
    (hreadable : unreadable env nTimeTx txout = false) :
    HasVerdict (checkOpReturn env ancestors nTimeTx txout queue) := by
  unfold checkOpReturn
  split_ifs with hvalue hbtc
  · simp
  · simp
  · simp only [unreadable, hreturn, not_not.mp hvalue, hbtc, decide_true, Bool.not_false,
      Bool.true_and] at hreadable
    cases hfirst : getScriptOp txout.scriptPubKey.bytes with
    | none => simp
    | some first =>
      rw [hfirst] at hreadable
      dsimp only at hreadable ⊢
      cases hsecond : getScriptOp first.2.2 with
      | none => simp
      | some second =>
        rw [hsecond] at hreadable
        dsimp only at hreadable ⊢
        cases hqueue : readQueue second.2.1 with
        | none => simp [hqueue] at hreadable
        | some positions =>
          dsimp only
          split_ifs
          · simp
          · simp

theorem checkOtherOutput_hasVerdict {queue : List UInt16}
    (hreadable : unreadable env nTimeTx txout = false) :
    HasVerdict (checkOtherOutput env ancestors nTimeTx txout queue) := by
  unfold checkOtherOutput
  split_ifs with hformat hreturn
  · simp
  · exact checkOpReturn_hasVerdict hreturn hreadable
  · simp

/-! ## The other tests -/

theorem checkClaimLimits_hasVerdict (value : ℤ) (claim : Claim) (nTotalReceived : ℤ)
    (nOutputs : ℕ) : HasVerdict (checkClaimLimits env value claim nTotalReceived nOutputs) := by
  unfold checkClaimLimits
  split_ifs <;> simp

theorem checkClaimAmounts_hasVerdict (value : ℤ) (claim : Claim) (nOutputs : ℕ) :
    HasVerdict (checkClaimAmounts env ancestors value claim nOutputs) := by
  unfold checkClaimAmounts
  dsimp only
  split_ifs
  · exact checkClaimLimits_hasVerdict _ _ _ _
  · simp
  · exact checkClaimLimits_hasVerdict _ _ _ _

theorem checkClaimEligibility_hasVerdict (value : ℤ) (claim : Claim)
    (claims : Std.ExtTreeMap CScript (CScript × ℤ) compare) (nOutputs : ℕ) :
    HasVerdict (checkClaimEligibility env ancestors value claim claims nOutputs).2 := by
  unfold checkClaimEligibility
  split_ifs
  · simp
  · simp
  · exact checkClaimAmounts_hasVerdict _ _ _

theorem checkClaimOutput_of_unreadable (hnone : loop.g_claims.attributed txout.scriptPubKey = none)
    (hbroken : unreadable env nTimeTx txout = true) :
    (checkClaimOutput env ancestors nTimeTx txout loop).result = .error .thrown := by
  unfold checkClaimOutput
  rw [hnone]
  rw [checkOtherOutput_of_unreadable hbroken]
  rfl

theorem checkClaimOutput_hasVerdict
    (hreadable : ¬ (loop.g_claims.attributed txout.scriptPubKey = none ∧
      unreadable env nTimeTx txout = true)) :
    HasVerdict (checkClaimOutput env ancestors nTimeTx txout loop).result := by
  unfold checkClaimOutput
  cases hclaim : loop.g_claims.attributed txout.scriptPubKey with
  | none =>
    have hother := @checkOtherOutput_hasVerdict env ancestors nTimeTx txout loop.queued_claims
      (Bool.eq_false_iff.mpr fun hbroken => hreadable ⟨hclaim, hbroken⟩)
    dsimp only
    split
    · rename_i hresult
      rw [hresult] at hother
      simpa using hother
    · simp
  | some entry =>
    have hverdict := @checkClaimEligibility_hasVerdict env ancestors txout.value entry.2
      loop.claims (loop.outputs.getD entry.2.getSource 0)
    dsimp only
    split
    · rename_i hresult
      rw [hresult] at hverdict
      simpa using hverdict
    · simp

theorem insertBlockClaims_hasVerdict (pool : ClaimPool) :
    HasVerdict (insertBlockClaims env nTimeTx vClaim pool).result := by
  intro failure hfails
  obtain ⟨before, claim, after, -, -, hclaim⟩ := forEach_eq_error_iff.mp hfails
  unfold insertBlockClaim at hclaim
  dsimp only at hclaim
  split_ifs at hclaim
  · exact ⟨_, (Except.error.inj hclaim).symm⟩
  · exact ⟨_, (Except.error.inj hclaim).symm⟩
  · exact ⟨_, (Except.error.inj hclaim).symm⟩
  · cases hclaim

theorem checkGenesisInputs_hasVerdict (vin : List CTxIn) :
    HasVerdict (checkGenesisInputs env view tx nTimeTx vin) := by
  induction vin with
  | nil => exact hasVerdict_ok ()
  | cons input rest ih =>
    rw [checkGenesisInputs]
    unfold checkGenesisKeyInput
    split_ifs
    · exact ih
    · exact ih
    · exact hasVerdict_txConsensus _
    · exact ih

theorem checkClaimGuards_hasVerdict : HasVerdict (checkClaimGuards env view tx nTimeTx vClaim) := by
  have hinputs := @checkGenesisInputs_hasVerdict env view tx nTimeTx tx.vin
  unfold checkClaimGuards
  cases hresult : checkGenesisInputs env view tx nTimeTx tx.vin with
  | error failure =>
    rw [hresult] at hinputs
    dsimp only
    split_ifs
    · simp
    · exact hinputs
  | ok value =>
    split_ifs <;> simp

/-! ## CheckClaims -/

/-- The output loop of `CheckClaims` over the given outputs. -/
def outputsLoop (env : Env) (ancestors : IndexChain) (nTimeTx : UInt32) (vClaim : List CClaim)
    (st : ClaimState) (vout : List CTxOut) : Outcome OutputLoop TxFail Unit :=
  forEach (checkClaimOutput env ancestors nTimeTx) vout
    { st with g_claims := st.g_claims.mergeAll env vClaim, outputs := ∅ }

/-- `CheckClaims` comes to an output with the given pool. -/
structure ReachesOutput (env : Env) (ancestors : IndexChain) (view : CCoinsView)
    (tx : CTransaction) (nTimeTx : UInt32) (vClaim : List CClaim) (st : ClaimState)
    (txout : CTxOut) (pool : ClaimPool) : Prop where
  carries : vClaim ≠ []
  guards : checkClaimGuards env view tx nTimeTx vClaim = .ok ()
  merged : (insertBlockClaims env nTimeTx vClaim st.g_claims).result = .ok ()
  before : ∃ before after, tx.vout = before ++ txout :: after ∧
    (outputsLoop env ancestors nTimeTx vClaim st before).result = .ok () ∧
    (outputsLoop env ancestors nTimeTx vClaim st before).state.g_claims = pool

/-- `CheckClaims` comes to an announcement that it cannot read. -/
def ReachesUnreadable (env : Env) (ancestors : IndexChain) (view : CCoinsView)
    (tx : CTransaction) (nTimeTx : UInt32) (vClaim : List CClaim) (st : ClaimState) : Prop :=
  ∃ txout pool, ReachesOutput env ancestors view tx nTimeTx vClaim st txout pool ∧
    unreadable env nTimeTx txout = true ∧ pool.attributed txout.scriptPubKey = none

/-- `CheckClaims` comes to an output that pays the target of an entry without a source. -/
def ReachesNull (env : Env) (ancestors : IndexChain) (view : CCoinsView)
    (tx : CTransaction) (nTimeTx : UInt32) (vClaim : List CClaim) (st : ClaimState) : Prop :=
  ∃ txout pool key claim, ReachesOutput env ancestors view tx nTimeTx vClaim st txout pool ∧
    pool.attributed txout.scriptPubKey = some (key, claim) ∧ claim.getSource? = none

theorem ClaimPool.Tidy.of_reachesOutput {pool : ClaimPool} (h : st.g_claims.Tidy)
    (hreach : ReachesOutput env ancestors view tx nTimeTx vClaim st txout pool) : pool.Tidy := by
  obtain ⟨before, after, -, -, rfl⟩ := hreach.before
  have hinsert := @insertBlockClaims_pool_invariant env ClaimPool.Tidy nTimeTx vClaim st.g_claims
    (fun claim _ hvalid htidy => htidy.merge_checkedClaim hvalid) h
  rw [insertBlockClaims_state_of_ok hreach.merged] at hinsert
  exact hinsert.of_forgetElectrum (image_checkClaimOutputs Claim.forgetElectrum_isValid before
    { st with g_claims := st.g_claims.mergeAll env vClaim })

theorem not_reachesNull (h : st.g_claims.Tidy) :
    ¬ ReachesNull env ancestors view tx nTimeTx vClaim st := by
  rintro ⟨txout, pool, key, claim, hreach, hattributed, hnone⟩
  have hsource := (h.of_reachesOutput hreach).source key claim
    (ClaimPool.attributed_some hattributed).1
  rw [hnone] at hsource
  cases hsource

theorem checkClaims_of_unreadable (h : ReachesUnreadable env ancestors view tx nTimeTx vClaim st) :
    (checkClaims env ancestors view tx nTimeTx vClaim st).result = .error .thrown := by
  obtain ⟨txout, _, ⟨hne, hguards, hmerged, before, after, hvout, hpassed, rfl⟩, hbroken,
    hnone⟩ := h
  rw [checkClaims_of_ne_nil hne, hguards]
  rw [hmerged]
  exact forEach_eq_error_iff.mpr
    ⟨before, txout, after, hvout, hpassed, checkClaimOutput_of_unreadable hnone hbroken⟩

theorem checkClaims_hasVerdict
    (hreadable : ¬ ReachesUnreadable env ancestors view tx nTimeTx vClaim st) :
    HasVerdict (checkClaims env ancestors view tx nTimeTx vClaim st).result := by
  by_cases hne : vClaim = []
  · subst hne
    exact hasVerdict_ok ()
  rw [checkClaims_of_ne_nil hne]
  have hguards := @checkClaimGuards_hasVerdict env view tx nTimeTx vClaim
  have hinsert := @insertBlockClaims_hasVerdict env nTimeTx vClaim st.g_claims
  cases hpassed : checkClaimGuards env view tx nTimeTx vClaim with
  | error failure =>
    rw [hpassed] at hguards
    simpa using hguards
  | ok value =>
    cases hmerged : (insertBlockClaims env nTimeTx vClaim st.g_claims).result with
    | error failure =>
      rw [hmerged] at hinsert
      simpa using hinsert
    | ok value =>
      intro failure hfails
      have hloop : (outputsLoop env ancestors nTimeTx vClaim st tx.vout).result =
          .error failure := hfails
      obtain ⟨before, txout, after, hvout, hbefore, hstep⟩ := forEach_eq_error_iff.mp hloop
      refine checkClaimOutput_hasVerdict ?_ failure hstep
      rintro ⟨hnone, hbroken⟩
      exact hreadable ⟨txout, _,
        ⟨hne, hpassed, hmerged, before, after, hvout, hbefore, rfl⟩, hbroken, hnone⟩

theorem checkClaims_hasVerdict_iff :
    HasVerdict (checkClaims env ancestors view tx nTimeTx vClaim st).result ↔
      ¬ ReachesUnreadable env ancestors view tx nTimeTx vClaim st := by
  refine ⟨fun hverdict hbroken => ?_, checkClaims_hasVerdict⟩
  rw [checkClaims_of_unreadable hbroken] at hverdict
  exact absurd hverdict (by simp)

/-! ## ConnectBlock -/

/-- The transaction loop comes to the claims of a transaction. -/
structure ReachesClaims (env : Env) (ctx : Circumstances) (ancestors : IndexChain)
    (start : ConnectState) (tx : CTransaction) (loop : TxLoop) : Prop where
  before : ∃ before after, start.block.vtx = before ++ tx :: after ∧
    (forEach (connectTx env ctx start.pindex ancestors start.block) before
      (loopInit start)).result = .ok () ∧
    (forEach (connectTx env ctx start.pindex ancestors start.block) before
      (loopInit start)).state = loop
  other : tx.isCoinBase = false
  inputs : ∃ txfee, checkTxInputs env loop.view tx start.pindex.nHeight
    (txTime tx start.block) = .ok txfee

/-- The call of `CheckClaims` that the transaction loop comes to. -/
def loopClaims (env : Env) (ancestors : IndexChain) (start : ConnectState) (tx : CTransaction)
    (loop : TxLoop) : Except TxFail Unit :=
  (checkClaims env ancestors loop.view tx (txTime tx start.block) start.block.vClaim
    loop.toClaimState).result

/-- A failure of `CheckClaims` is the failure of `ConnectBlock`, and nothing is written
into the entry of the block. -/
theorem connectBlock_of_claims_error {start : ConnectState} {loop : TxLoop}
    (hreach : ReachesLoop env kernel ancestors false start)
    (hclaims : ReachesClaims env ctx ancestors
      (loopStart env kernel ancestors false start) tx loop)
    (hfails : loopClaims env ancestors (loopStart env kernel ancestors false start) tx loop =
      .error failure) :
    (connectBlock env kernel ctx ancestors false start).result =
        .error failure.toBlockFail ∧
      (connectBlock env kernel ctx ancestors false start).state.pindex =
        (loopStart env kernel ancestors false start).pindex := by
  obtain ⟨⟨before, after, hvtx, hbefore, hstate⟩, hother, txfee, hinputs⟩ := hclaims
  have hstep : (connectTx env ctx (loopStart env kernel ancestors false start).pindex
      ancestors (loopStart env kernel ancestors false start).block tx loop).result =
      .error failure.toBlockFail := by
    have hresult : (connectInputs env (loopStart env kernel ancestors false start).pindex ancestors
        (loopStart env kernel ancestors false start).block tx loop).result =
        .error failure.toBlockFail := by
      unfold connectInputs
      rw [if_neg (by simp [hother]), hinputs]
      rw [connectClaims_eq]
      unfold loopClaims at hfails
      rw [hfails]
      rfl
    unfold connectTx
    rw [andThen_of_error hresult]
  have hloop : (connectLoop env ctx ancestors
      (loopStart env kernel ancestors false start)).result = .error failure.toBlockFail := by
    refine forEach_eq_error_iff.mpr ⟨before, tx, after, hvtx, hbefore, ?_⟩
    rw [← hstate] at hstep
    exact hstep
  have hrun := (@connectBlock_cases env kernel ctx ancestors false start).resolve_left
    fun hstops => hstops.1 hreach
  rw [hrun.2]
  unfold connectTransactions
  dsimp only
  rw [hloop]
  exact ⟨rfl, rfl⟩

/-! ## ConnectTip -/

/-- What becomes of a candidate on top of the tip: `FindMostWorkChain` drops an entry that
is marked as failed, for another one `ActivateBestChainStep` calls `ConnectTip`. -/
def tryCandidate (env : Env) (kernel : Kernel) (ctx : Circumstances)
    (flushed : Except BlockFail Unit) (block : CBlock) (st : Chainstate × CBlockIndex) :
    Option (Outcome (Chainstate × CBlockIndex) BlockFail Unit) :=
  if st.2.hasFailed then none
  else some (connectTip env kernel ctx flushed st.2 block st.1)

theorem hasFailed_invalidBlockFound {pindex : CBlockIndex} (hnew : pindex.hasFailed = false) :
    (invalidBlockFound failure.toBlockFail pindex).hasFailed = true ↔
      failure ≠ .thrown ∧ failure ≠ .aborted := by
  unfold CBlockIndex.hasFailed at hnew ⊢
  obtain ⟨hvalid, hchild⟩ := Bool.or_eq_false_iff.mp hnew
  cases failure with
  | invalid result reason => simp [TxFail.toBlockFail, invalidBlockFound]
  | silent => simp [TxFail.toBlockFail, invalidBlockFound]
  | error reason => simp [TxFail.toBlockFail, invalidBlockFound]
  | thrown => simp [TxFail.toBlockFail, invalidBlockFound, hvalid, hchild]
  | aborted => simp [TxFail.toBlockFail, invalidBlockFound, hvalid, hchild]

theorem ClaimPool.Tidy.of_reachesClaims {start : ConnectState} {loop : TxLoop}
    (h : start.g_claims.Tidy) (hclaims : ReachesClaims env ctx ancestors start tx loop) :
    loop.g_claims.Tidy := by
  obtain ⟨before, after, -, -, rfl⟩ := hclaims.before
  exact connectTxs_claims (P := fun claims => claims.g_claims.Tidy)
    (fun _ _ _ hpool => hpool.checkClaims) h

/-- On a tidy pool `CheckClaims` reads through no null pointer, and it has a verdict exactly if
it does not come to an announcement that it cannot read.  A candidate whose claim check fails
is dropped for good under the same condition; otherwise the next call of `ActivateBestChain`
tries it again. -/
theorem claims_verdict_iff (env : Env) (kernel : Kernel) (ctx : Circumstances)
    (flushed : Except BlockFail Unit) :
    (∀ (ancestors : IndexChain) (view : CCoinsView) (tx : CTransaction) (nTimeTx : UInt32)
        (vClaim : List CClaim) (st : ClaimState), st.g_claims.Tidy →
      ¬ ReachesNull env ancestors view tx nTimeTx vClaim st ∧
        (HasVerdict (checkClaims env ancestors view tx nTimeTx vClaim st).result ↔
          ¬ ReachesUnreadable env ancestors view tx nTimeTx vClaim st)) ∧
    ∀ (chainstate : Chainstate) (pindexNew : CBlockIndex) (block : CBlock) (start : ConnectState)
        (tx : CTransaction) (loop : TxLoop),
      chainstate.g_claims.Tidy → pindexNew.hasFailed = false →
      ReachesLoop env kernel chainstate.m_chain false (chainstate.connecting pindexNew block) →
      start = loopStart env kernel chainstate.m_chain false
        (chainstate.connecting pindexNew block) →
      ReachesClaims env ctx chainstate.m_chain start tx loop →
      loopClaims env chainstate.m_chain start tx loop ≠ .ok () →
      ¬ ReachesNull env chainstate.m_chain loop.view tx (txTime tx start.block)
          start.block.vClaim loop.toClaimState ∧
        (tryCandidate env kernel ctx flushed block
            (connectTip env kernel ctx flushed pindexNew block chainstate).state = none ↔
          ¬ ReachesUnreadable env chainstate.m_chain loop.view tx (txTime tx start.block)
            start.block.vClaim loop.toClaimState) := by
  refine ⟨fun _ _ _ _ _ _ htidy => ⟨not_reachesNull htidy, checkClaims_hasVerdict_iff⟩, ?_⟩
  intro chainstate pindexNew block start tx loop htidy hnew hreach hstart hclaims hfails
  subst hstart
  have hpool : (loopStart env kernel chainstate.m_chain false
      (chainstate.connecting pindexNew block)).g_claims.Tidy := by
    rw [(sameClaims_loopStart _).g_claims]
    exact htidy
  refine ⟨not_reachesNull (hpool.of_reachesClaims hclaims), ?_⟩
  cases hresult : loopClaims env chainstate.m_chain (loopStart env kernel chainstate.m_chain false
      (chainstate.connecting pindexNew block)) tx loop with
  | ok value => exact absurd hresult hfails
  | error failure =>
    obtain ⟨hblock, hentry⟩ := connectBlock_of_claims_error hreach hclaims hresult
    -- the entry that is marked is the one the loop started with
    have hstatus : (loopStart env kernel chainstate.m_chain false
        (chainstate.connecting pindexNew block)).pindex.hasFailed = false := by
      have hsame := congrArg CBlockIndex.nStatus (@unstaked_loopStart env kernel
        chainstate.m_chain (chainstate.connecting pindexNew block))
      unfold CBlockIndex.hasFailed at hnew ⊢
      refine Eq.trans ?_ hnew
      exact congrArg (fun status : BlockStatus => status.failedValid || status.failedChild) hsame
    have htip : (connectTip env kernel ctx flushed pindexNew block
        chainstate).state.2 = invalidBlockFound failure.toBlockFail
          (loopStart env kernel chainstate.m_chain false
            (chainstate.connecting pindexNew block)).pindex := by
      unfold connectTip
      dsimp only
      rw [hblock, hentry]
      rfl
    have hdropped : tryCandidate env kernel ctx flushed block
        (connectTip env kernel ctx flushed pindexNew block chainstate).state = none ↔
        failure ≠ .thrown ∧ failure ≠ .aborted := by
      rw [← hasFailed_invalidBlockFound hstatus, ← htip]
      unfold tryCandidate
      split_ifs with hfailed
      · simp [hfailed]
      · simp [hfailed]
    rw [hdropped]
    unfold loopClaims at hresult
    constructor
    · intro hkind hbroken
      exact hkind.1 (Except.error.inj (hresult.symm.trans (checkClaims_of_unreadable hbroken)))
    · intro hreadable
      obtain ⟨reason, rfl⟩ := checkClaims_hasVerdict hreadable failure hresult
      exact ⟨by simp, by simp⟩

namespace SmallNet

/-- The tip is the genesis block. -/
def genesisTip : Chainstate := chainstate (node false false) [genesisBlock]

/-- A candidate on top of the genesis block is tried. -/
def tryFirst (block : CBlock) : Outcome (Chainstate × CBlockIndex) BlockFail Unit :=
  connectTip (node false false) stakeKernel ordinary (.ok ())
    (second (node false false) block).pindex block genesisTip

/-- The transaction loop on a block after the genesis block, at its start and after the
coinbase. -/
def firstStart (block : CBlock) : ConnectState :=
  loopStart (node false false) stakeKernel genesisTip.m_chain false
    (genesisTip.connecting (second (node false false) block).pindex block)

def afterCoinbase (block : CBlock) : Outcome TxLoop BlockFail Unit :=
  forEach (connectTx (node false false) ordinary (firstStart block).pindex genesisTip.m_chain
    (firstStart block).block) [coinbase 1] (loopInit (firstStart block))

/-- A block that pays an output to nobody is refused, and then dropped. -/
theorem strayBlock_is_dropped :
    tryCandidate (node false false) stakeKernel ordinary (.ok ()) strayBlock
      (tryFirst strayBlock).state = none := by
  have hreach : ReachesLoop (node false false) stakeKernel genesisTip.m_chain false
      (genesisTip.connecting (second (node false false) strayBlock).pindex strayBlock) :=
    ⟨passed_iff.mp (by decide +kernel), by decide +kernel⟩
  have hcoinbase : (afterCoinbase strayBlock).result = .ok () := passed_iff.mp (by decide +kernel)
  have hvtx : (firstStart strayBlock).block.vtx = [coinbase 1] ++ [coinstake strayBlock] := by
    decide +kernel
  have hinputs : ∃ txfee, checkTxInputs (node false false) (afterCoinbase strayBlock).state.view
      (coinstake strayBlock) (firstStart strayBlock).pindex.nHeight
      (txTime (coinstake strayBlock) (firstStart strayBlock).block) = .ok txfee :=
    ⟨0, by decide +kernel⟩
  have hclaims : ReachesClaims (node false false) ordinary genesisTip.m_chain
      (firstStart strayBlock) (coinstake strayBlock) (afterCoinbase strayBlock).state :=
    ⟨⟨[coinbase 1], [], hvtx, hcoinbase, rfl⟩, by decide +kernel, hinputs⟩
  have hfails : loopClaims (node false false) genesisTip.m_chain
      (firstStart strayBlock) (coinstake strayBlock) (afterCoinbase strayBlock).state ≠ .ok () := by
    decide +kernel
  have hreadable : ∀ txout ∈ (coinstake strayBlock).vout, unreadable (node false false)
      (txTime (coinstake strayBlock) (firstStart strayBlock).block) txout = false := by
    decide +kernel
  have htidy : genesisTip.g_claims.Tidy := by
    rw [Std.ExtTreeMap.isEmpty_iff.mp (by decide +kernel : genesisTip.g_claims.isEmpty = true)]
    exact ClaimPool.tidy_empty
  have hverdict := (claims_verdict_iff (node false false) stakeKernel ordinary (.ok ())).2
    genesisTip (second (node false false) strayBlock).pindex strayBlock (firstStart strayBlock)
    (coinstake strayBlock) (afterCoinbase strayBlock).state htidy
    (by decide +kernel) hreach rfl hclaims hfails
  refine hverdict.2.mpr ?_
  rintro ⟨txout, pool, hoccurs, hbroken, -⟩
  obtain ⟨before, after, hvout, -⟩ := hoccurs.before
  rw [hreadable txout (by rw [hvout]; simp)] at hbroken
  cases hbroken

/-- A block with an announcement of one position that ends after its count. -/
def truncatedBlock : CBlock :=
  payBlock 1 genesisHash 1700000500 0 99990000000
    [⟨10000000, payToKeyHash 2⟩, ⟨0, ⟨[OP_RETURN, 1, 1]⟩⟩]
    [mkClaim (payToKeyHash 1) (payToKeyHash 2)]

/-- `CheckClaims` throws on the coinstake of the block, and the block stays a candidate that
stops `ActivateBestChain` again. -/
theorem truncated_announcement_throws_again :
    (checkClaims (node false false) (genesisChain (node false false))
        (second (node false false) truncatedBlock).view (coinstake truncatedBlock) 1700000500
        truncatedBlock.vClaim ⟨∅, ∅, []⟩).result = .error .thrown ∧
      (tryFirst truncatedBlock).result = .error .thrown ∧
      (tryCandidate (node false false) stakeKernel ordinary (.ok ()) truncatedBlock
        (tryFirst truncatedBlock).state).map Outcome.result = some (.error .thrown) := by
  refine ⟨by decide +kernel, by decide +kernel, by decide +kernel⟩

end SmallNet

end Patchcoin
