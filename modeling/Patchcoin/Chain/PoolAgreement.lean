import Patchcoin.Chain.Caps
import Patchcoin.Consensus.Options

/-!
# Two nodes with different pools

The pool holds the claims of earlier blocks next to claims that the node has
received from its peers, and `checkClaims` makes no difference between them.  A
claim that only one of two nodes has received can make that node attribute an
output to a claim, or keep it from merging a claim of the block, and then the
nodes disagree on the block.

The scan runs over the outputs of the transactions with inputs, in a block that carries claims.
If every output it looks at pays the same source on both nodes, they agree: one accepts the
block if the other does, and they record the same payouts (`pools_agree`).  Apart from
the pool the two runs of `connectBlock` stay in the same state, which the frame
lemmas below say: no step except `connectClaims` looks at the pool.
-/

namespace Patchcoin

open Outcome TxLoop

variable {env : Env} {kernel : Kernel} {ctx : Circumstances} {ancestors : IndexChain}
  {pindex : CBlockIndex} {block : CBlock} {tx : CTransaction} {vClaim : List CClaim}
  {pool pool' : ClaimPool} {fJustCheck : Bool}
variable {loop loop' : TxLoop}

/-! ## Steps that do not look at the pool -/

def TxLoop.setPool (pool : ClaimPool) (loop : TxLoop) : TxLoop := { loop with g_claims := pool }

theorem addValueOut_setPool (pool : ClaimPool) (loop : TxLoop) :
    addValueOut tx (loop.setPool pool) = (addValueOut tx loop).mapState (setPool pool) := by
  unfold addValueOut
  cases tx.getValueOut with
  | none => rfl
  | some value => rfl

theorem connectAmounts_setPool (pool : ClaimPool) (txfee : ℤ) (loop : TxLoop) :
    connectAmounts env pindex ancestors tx txfee (loop.setPool pool) =
      (connectAmounts env pindex ancestors tx txfee loop).mapState (setPool pool) := by
  unfold connectAmounts
  change (addValueOut tx (setPool pool { loop with
    nValueIn := loop.nValueIn +
      (tx.vin.map fun input => (loop.view.accessCoin input.prevout).out.value).sum })).andThen _ = _
  rw [addValueOut_setPool]
  refine andThen_mapState fun _ state => ?_
  cases hstake : tx.isCoinStake with
  | true =>
    dsimp only [setPool]
    simp only [if_true]
    split
    · rfl
    · split <;> rfl
  | false =>
    dsimp only [setPool]
    simp only [Bool.false_eq_true, if_false]
    split
    · rfl
    · split <;> rfl

theorem connectScripts_setPool (pool : ClaimPool) (loop : TxLoop) :
    connectScripts env ctx ancestors tx (loop.setPool pool) =
      (connectScripts env ctx ancestors tx loop).mapState (setPool pool) := by
  unfold connectScripts
  dsimp only [setPool]
  split
  · rfl
  · split
    · rfl
    · split
      · rfl
      · split <;> rfl

theorem connectCoins_setPool (pool : ClaimPool) (loop : TxLoop) :
    connectCoins env pindex tx (loop.setPool pool) =
      (connectCoins env pindex tx loop).mapState (setPool pool) := by
  unfold connectCoins
  dsimp only [setPool]
  split <;> rfl

/-- After the inputs, nothing looks at the pool. -/
theorem connectTx_setPool {pool : ClaimPool} {loop loop' : TxLoop}
    (h : connectInputs env pindex ancestors block tx loop' =
      (connectInputs env pindex ancestors block tx loop).mapState (setPool pool)) :
    connectTx env ctx pindex ancestors block tx loop' =
      (connectTx env ctx pindex ancestors block tx loop).mapState
        (setPool pool) := by
  unfold connectTx
  rw [h]
  refine andThen_mapState fun _ state => ?_
  rw [connectScripts_setPool]
  exact andThen_mapState fun _ next => connectCoins_setPool pool next

/-! ## What is compared -/

/-- What the payout of a claim depends on: the source, the target, and whether the claim is
valid when it is asked anew. -/
def Claim.payee (env : Env) (claim : Claim) : CScript × CScript × Bool :=
  (claim.m_claim.source, claim.getTarget, decide ((claim.forgetElectrum.isValid env).2 = .OK))

theorem compares_payee (env : Env) : Compares env env (Claim.payee env) := by
  have hchecked (claim : Claim) : (claim.isValid env).1.payee env = claim.payee env := by
    unfold Claim.payee
    rw [Claim.forgetElectrum_isValid, Claim.isValid_fst_eq claim]
    rfl
  exact ⟨congrArg Prod.fst, congrArg fun payee : CScript × CScript × Bool => payee.2.1, hchecked,
    hchecked⟩

theorem Claim.Built.isValid_forgetElectrum {claim : Claim} (h : claim.Built env) :
    (claim.forgetElectrum.isValid env).2 = .OK ↔ (claim.isValid env).2 = .OK := by
  have hforget : claim.forgetElectrum.Built env := ⟨h.core_eq, fun hanswer => by cases hanswer⟩
  rw [hforget.isValid_iff, h.isValid_iff]
  exact Iff.rfl

/-- Valid claims of one source are judged the same way on one node. -/
theorem follows_payee (payee : CScript × CScript × Bool) (value : ℤ) :
    Follows env env ancestors (Claim.payee env) payee value := by
  rintro claim claim' hbuilt hbuilt' rfl hpayee hvalid count hamounts
  have hsame : (claim'.forgetElectrum.isValid env).2 = .OK ↔
      (claim.forgetElectrum.isValid env).2 = .OK :=
    decide_eq_decide.mp (congrArg (fun payee => payee.2.2) hpayee)
  rw [hbuilt.isValid_forgetElectrum, hbuilt'.isValid_forgetElectrum] at hsame
  have hvalid' := hsame.mpr hvalid
  refine ⟨hvalid', (checkClaimAmounts_iff_payable hbuilt' hvalid').mpr ?_⟩
  rw [(compares_payee env).source hpayee]
  exact (checkClaimAmounts_iff_payable hbuilt hvalid).mp ⟨count, hamounts⟩

/-! ## The transaction loop -/

/-- Two runs of the loop, from the given pools with the claims of the block: they differ
in the pool only. -/
structure LoopsAgree (env : Env) (vClaim : List CClaim) (pool pool' : ClaimPool)
    (loop loop' : TxLoop) : Prop where
  frame : loop' = loop.setPool loop'.g_claims
  claims : ClaimsMatch env env (Claim.payee env) vClaim pool pool' loop.toClaimState
    loop'.toClaimState

/-- Two runs of a transaction with inputs that both accept the claims. -/
theorem connectInputs_setPool {txfee : ℤ} {checked checked' : ClaimState}
    (hframe : loop' = loop.setPool loop'.g_claims) (hcoinbase : tx.isCoinBase = false)
    (hinputs : checkTxInputs env loop.view tx pindex.nHeight (txTime tx block) = .ok txfee)
    (hrun : checkClaims env ancestors loop.view tx (txTime tx block) block.vClaim
      loop.toClaimState = .pass checked)
    (hrun' : checkClaims env ancestors loop.view tx (txTime tx block) block.vClaim
      loop'.toClaimState = .pass checked')
    (hmatch : ClaimsMatch env env (Claim.payee env) block.vClaim pool pool' checked checked') :
    connectInputs env pindex ancestors block tx loop' =
      (connectInputs env pindex ancestors block tx loop).mapState
        (setPool checked'.g_claims) := by
  have hview : loop'.view = loop.view := by rw [hframe]; rfl
  unfold connectInputs
  rw [hcoinbase, if_neg Bool.false_ne_true, if_neg Bool.false_ne_true, hview, hinputs]
  rw [connectClaims_eq, connectClaims_eq, hview, hrun, hrun']
  dsimp only [Outcome.pass, andThen]
  rw [← connectAmounts_setPool]
  -- the states that the sums start from differ in the pool only
  obtain ⟨g_claims', claims', queue'⟩ := checked'
  obtain rfl : claims' = checked.claims := hmatch.claims
  obtain rfl : queue' = checked.queued_claims := hmatch.queued_claims
  rw [hframe]
  rfl

/-- If the first run of a transaction passes, so does the second. -/
theorem connectTx_follows (h : LoopsAgree env block.vClaim pool pool' loop loop')
    (hfor : tx.isCoinBase = false → block.vClaim ≠ [] → ∀ txout ∈ tx.vout,
      pool.partFor (Claim.payee env) txout.scriptPubKey =
        pool'.partFor (Claim.payee env) txout.scriptPubKey)
    (hok : (connectTx env ctx pindex ancestors block tx loop).result = .ok ()) :
    (connectTx env ctx pindex ancestors block tx loop').result = .ok () ∧
      LoopsAgree env block.vClaim pool pool'
        (connectTx env ctx pindex ancestors block tx loop).state
        (connectTx env ctx pindex ancestors block tx loop').state := by
  have hview : loop'.view = loop.view := by rw [h.frame]; rfl
  have hstate := @toClaimState_connectTx env ctx pindex ancestors block tx loop
  have hstate' := @toClaimState_connectTx env ctx pindex ancestors block tx loop'
  unfold claimsAfter at hstate hstate'
  rw [hview] at hstate'
  cases hcoinbase : tx.isCoinBase with
  | true =>
    rw [hcoinbase, if_pos rfl] at hstate hstate'
    have hinputs : connectInputs env pindex ancestors block tx loop' =
        (connectInputs env pindex ancestors block tx loop).mapState
          (setPool loop'.g_claims) := by
      unfold connectInputs
      rw [hcoinbase, if_pos rfl, if_pos rfl, ← addValueOut_setPool, ← h.frame]
    have hrun := @connectTx_setPool env ctx ancestors pindex block tx _ _ _ hinputs
    refine ⟨by rw [hrun]; exact hok, ?_, ?_⟩
    · rw [hrun]
      rfl
    · rw [hstate, hstate']
      exact h.claims
  | false =>
    obtain ⟨⟨txfee, hinputs⟩, hclaims⟩ := (connectTx_of_ok hok).2.2 hcoinbase
    rw [hcoinbase, if_neg Bool.false_ne_true, hinputs] at hstate hstate'
    obtain ⟨hclaims', hmatch⟩ := checkClaims_follows (.refl env) (compares_payee env) h.claims
      (fun _ _ h => h) (hfor hcoinbase) (fun txout _ payee _ => follows_payee payee txout.value)
      hclaims
    have hrun := @connectTx_setPool env ctx ancestors pindex block tx _ _ _
      (connectInputs_setPool h.frame hcoinbase hinputs (eq_pass hclaims)
        (eq_pass hclaims') hmatch)
    refine ⟨by rw [hrun]; exact hok, ?_, ?_⟩
    · rw [hrun]
      rfl
    · rw [hstate, hstate']
      exact hmatch

/-! ## The block -/

def ConnectState.setPool (pool : ClaimPool) (st : ConnectState) : ConnectState :=
  { st with g_claims := pool }

theorem block_setPool (st : ConnectState) : (st.setPool pool).block = st.block := rfl

theorem pindex_setPool (st : ConnectState) : (st.setPool pool).pindex = st.pindex := rfl

theorem writeStake_setPool (hashProofOfStake : Uint256) (nStakeModifier : UInt64)
    (fGenerated : Bool) (checksum : UInt32) (st : ConnectState) :
    writeStake kernel hashProofOfStake nStakeModifier fGenerated checksum (st.setPool pool) =
      (writeStake kernel hashProofOfStake nStakeModifier fGenerated checksum st).mapState
        (ConnectState.setPool pool) := by
  have hnote : noteStake hashProofOfStake (st.setPool pool) =
      (noteStake hashProofOfStake st).setPool pool := by
    unfold noteStake
    rw [block_setPool]
    split_ifs <;> rfl
  unfold writeStake
  rw [hnote]
  dsimp only
  rw [block_setPool, pindex_setPool]
  split <;> rfl

theorem peercoinContextualBlockChecks_setPool (st : ConnectState) :
    peercoinContextualBlockChecks kernel ancestors fJustCheck (st.setPool pool) =
      (peercoinContextualBlockChecks kernel ancestors fJustCheck st).mapState
        (ConnectState.setPool pool) := by
  unfold peercoinContextualBlockChecks
  have hstake : checkStake kernel ancestors (st.setPool pool) =
      checkStake kernel ancestors st := rfl
  rw [hstake, pindex_setPool]
  split
  · rfl
  · split
    · rfl
    · rename_i hashProofOfStake _ _ nStakeModifier fGenerated _
      have hchecksum : stagedChecksum kernel ancestors hashProofOfStake nStakeModifier fGenerated
          (st.setPool pool) =
          stagedChecksum kernel ancestors hashProofOfStake nStakeModifier fGenerated st := rfl
      rw [hchecksum]
      split
      · rfl
      · split
        · rfl
        · split
          · rfl
          · exact writeStake_setPool _ _ _ _ st

theorem connectCheckBlock_setPool (st : ConnectState) :
    connectCheckBlock env fJustCheck (st.setPool pool) =
      (connectCheckBlock env fJustCheck st).mapState (ConnectState.setPool pool) := by
  unfold connectCheckBlock
  rw [block_setPool]
  dsimp only
  split <;> rfl

theorem connectPrologue_setPool (st : ConnectState) :
    connectPrologue env kernel ancestors fJustCheck (st.setPool pool) =
      (connectPrologue env kernel ancestors fJustCheck st).mapState
        (ConnectState.setPool pool) := by
  unfold connectPrologue
  rw [pindex_setPool, block_setPool]
  dsimp only
  split
  · rfl
  · split
    · rfl
    · have hfirst : (if st.pindex.nStakeModifier = 0 ∧ st.pindex.nStakeModifierChecksum = 0 then
            peercoinContextualBlockChecks kernel ancestors fJustCheck (st.setPool pool)
          else .pass (st.setPool pool)) =
          (if st.pindex.nStakeModifier = 0 ∧ st.pindex.nStakeModifierChecksum = 0 then
            peercoinContextualBlockChecks kernel ancestors fJustCheck st
          else .pass st).mapState (ConnectState.setPool pool) := by
        split_ifs
        · exact peercoinContextualBlockChecks_setPool st
        · rfl
      rw [hfirst]
      exact andThen_mapState fun _ next => connectCheckBlock_setPool next

theorem setGenesisBest_setPool (st : ConnectState) :
    setGenesisBest env fJustCheck (st.setPool pool) =
      (setGenesisBest env fJustCheck st).setPool pool := by
  unfold setGenesisBest
  rw [block_setPool]
  split_ifs <;> rfl

theorem loopStart_setPool (st : ConnectState) :
    loopStart env kernel ancestors fJustCheck (st.setPool pool) =
      (loopStart env kernel ancestors fJustCheck st).setPool pool := by
  rw [loopStart, connectPrologue_setPool]
  exact setGenesisBest_setPool _

theorem reachesLoop_setPool (st : ConnectState) :
    ReachesLoop env kernel ancestors fJustCheck (st.setPool pool) ↔
      ReachesLoop env kernel ancestors fJustCheck st := by
  rw [ReachesLoop, connectPrologue_setPool]
  exact Iff.rfl

/-- After merging the claims of the block, the outputs that `CheckClaims` scans pay the same
sources. -/
def SameAttribution (env : Env) (block : CBlock) (pool pool' : ClaimPool) : Prop :=
  block.vClaim ≠ [] → ∀ tx ∈ block.vtx, tx.isCoinBase = false → ∀ txout ∈ tx.vout,
    (pool.mergeAll env block.vClaim).partFor (Claim.payee env) txout.scriptPubKey =
      (pool'.mergeAll env block.vClaim).partFor (Claim.payee env) txout.scriptPubKey

instance (env : Env) (block : CBlock) (pool pool' : ClaimPool) :
    Decidable (SameAttribution env block pool pool') :=
  inferInstanceAs (Decidable (block.vClaim ≠ [] → ∀ tx ∈ block.vtx, tx.isCoinBase = false →
    ∀ txout ∈ tx.vout,
      (pool.mergeAll env block.vClaim).partFor (Claim.payee env) txout.scriptPubKey =
        (pool'.mergeAll env block.vClaim).partFor (Claim.payee env) txout.scriptPubKey))

/-- The transactions of the block pass on the node. -/
def PassesLoop (env : Env) (kernel : Kernel) (ctx : Circumstances) (ancestors : IndexChain)
    (fJustCheck : Bool) (st : ConnectState) : Prop :=
  ReachesLoop env kernel ancestors fJustCheck st ∧
    (connectLoop env ctx ancestors (loopStart env kernel ancestors fJustCheck st)).result = .ok ()

theorem SameAttribution.symm (h : SameAttribution env block pool pool') :
    SameAttribution env block pool' pool :=
  fun hne tx htx hother txout htxout => (h hne tx htx hother txout htxout).symm

section

variable {st : ConnectState}

theorem connectLoop_follows (hsound : pool.Sound env) (hsound' : pool'.Sound env)
    (hsame : SameAttribution env st.block pool pool')
    (hok : (connectLoop env ctx ancestors (st.setPool pool)).result = .ok ()) :
    (connectLoop env ctx ancestors (st.setPool pool')).result = .ok () ∧
      LoopsAgree env st.block.vClaim (pool.mergeAll env st.block.vClaim)
        (pool'.mergeAll env st.block.vClaim)
        (connectLoop env ctx ancestors (st.setPool pool)).state
        (connectLoop env ctx ancestors (st.setPool pool')).state := by
  have hstart : LoopsAgree env st.block.vClaim (pool.mergeAll env st.block.vClaim)
      (pool'.mergeAll env st.block.vClaim) (loopInit (st.setPool pool))
      (loopInit (st.setPool pool')) := ⟨rfl, claimsMatch_start hsound hsound'⟩
  refine forEach_simulation ?_ hstart hok
  intro tx htx loop loop' hloops hpass
  exact connectTx_follows hloops (fun hother hne => hsame hne tx htx hother) hpass

/-- The transactions of a block on the two nodes. -/
theorem connectTransactions_agree (hsound : pool.Sound env) (hsound' : pool'.Sound env)
    (hsame : (connectLoop env ctx ancestors (st.setPool pool)).result = .ok () ∨
      (connectLoop env ctx ancestors (st.setPool pool')).result = .ok () →
      SameAttribution env st.block pool pool') :
    ((connectTransactions env ctx ancestors fJustCheck (st.setPool pool)).result = .ok () ↔
      (connectTransactions env ctx ancestors fJustCheck (st.setPool pool')).result =
        .ok ()) ∧
    (connectTransactions env ctx ancestors fJustCheck
        (st.setPool pool)).state.pindex.nClaims =
      (connectTransactions env ctx ancestors fJustCheck
        (st.setPool pool')).state.pindex.nClaims := by
  unfold connectTransactions
  rw [block_setPool, block_setPool]
  dsimp only
  cases hloop : (connectLoop env ctx ancestors (st.setPool pool)).result with
  | error failure =>
    cases hloop' : (connectLoop env ctx ancestors (st.setPool pool')).result with
    | error failure' => exact ⟨by simp, rfl⟩
    | ok value =>
      have hpass := (@connectLoop_follows env ctx ancestors pool' pool st hsound' hsound
        (hsame (.inr hloop')).symm hloop').1
      rw [hloop] at hpass
      cases hpass
  | ok value =>
    obtain ⟨hloop', hagree⟩ := @connectLoop_follows env ctx ancestors pool pool' st hsound
      hsound' (hsame (.inl hloop)) hloop
    have htotals : checkConnectTotals env ancestors
        (st.block.getHash env.host.hash256 == env.params.hashGenesisBlock)
        (connectLoop env ctx ancestors (st.setPool pool')).state =
        checkConnectTotals env ancestors
          (st.block.getHash env.host.hash256 == env.params.hashGenesisBlock)
          (connectLoop env ctx ancestors (st.setPool pool)).state := by
      rw [hagree.frame]
      rfl
    rw [hloop', htotals]
    cases checkConnectTotals env ancestors
        (st.block.getHash env.host.hash256 == env.params.hashGenesisBlock)
        (connectLoop env ctx ancestors (st.setPool pool)).state with
    | error failure => exact ⟨by simp, rfl⟩
    | ok value =>
      split_ifs with hdry
      · exact ⟨by simp, rfl⟩
      · obtain ⟨hresult, _, _, -, hstate⟩ := finishBlock_cases _ _ _
        obtain ⟨hresult', _, _, -, hstate'⟩ := finishBlock_cases _ _ _
        rw [hresult, hresult', hstate, hstate']
        refine ⟨Iff.rfl, Std.ExtTreeMap.ext_getElem? fun source => ?_⟩
        have hstart : (st.setPool pool).g_claims.Sound env := hsound
        have hstart' : (st.setPool pool').g_claims.Sound env := hsound'
        rw [nClaims_recordBlock (paidLoop_of_ok hstart hloop).1 rfl,
          nClaims_recordBlock (paidLoop_of_ok hstart' hloop').1 rfl, hagree.claims.claims]
        rfl

/-- Two nodes with sound pools agree on a block and on the payouts that are recorded for it if
the outputs that are scanned pay the same sources, for a block that one of them lets through.
The same holds of `CheckClaims` for every transaction. -/
theorem pools_agree (hsound : pool.Sound env) (hsound' : pool'.Sound env) :
    (∀ tx view nTimeTx claims queued_claims,
      ((checkClaims env ancestors view tx nTimeTx st.block.vClaim
            ⟨pool, claims, queued_claims⟩).result = .ok () ∨
          (checkClaims env ancestors view tx nTimeTx st.block.vClaim
            ⟨pool', claims, queued_claims⟩).result = .ok () →
        st.block.vClaim ≠ [] → ∀ txout ∈ tx.vout,
          (pool.mergeAll env st.block.vClaim).partFor (Claim.payee env) txout.scriptPubKey =
            (pool'.mergeAll env st.block.vClaim).partFor (Claim.payee env) txout.scriptPubKey) →
      ((checkClaims env ancestors view tx nTimeTx st.block.vClaim
          ⟨pool, claims, queued_claims⟩).result = .ok () ↔
        (checkClaims env ancestors view tx nTimeTx st.block.vClaim
          ⟨pool', claims, queued_claims⟩).result = .ok ())) ∧
    ((PassesLoop env kernel ctx ancestors fJustCheck (st.setPool pool) ∨
        PassesLoop env kernel ctx ancestors fJustCheck (st.setPool pool') →
        SameAttribution env st.block pool pool') →
      ((connectBlock env kernel ctx ancestors fJustCheck (st.setPool pool)).result =
          .ok () ↔
        (connectBlock env kernel ctx ancestors fJustCheck (st.setPool pool')).result =
          .ok ()) ∧
      (connectBlock env kernel ctx ancestors fJustCheck
          (st.setPool pool)).state.pindex.nClaims =
        (connectBlock env kernel ctx ancestors fJustCheck
          (st.setPool pool')).state.pindex.nClaims) := by
  constructor
  · intro tx view nTimeTx claims queued_claims hsame
    constructor
    · intro hok
      exact (checkClaims_follows (.refl env) (compares_payee env)
        (claimsMatch_start hsound hsound') (fun _ _ h => h) (hsame (.inl hok))
        (fun txout _ payee _ => follows_payee payee txout.value) hok).1
    · intro hok
      exact (checkClaims_follows (.refl env) (compares_payee env)
        (claimsMatch_start hsound' hsound) (fun _ _ h => h)
        (fun hne txout htxout => (hsame (.inr hok) hne txout htxout).symm)
        (fun txout _ payee _ => follows_payee payee txout.value) hok).1
  · intro hsame
    simp only [PassesLoop, reachesLoop_setPool, loopStart_setPool] at hsame
    have hcontent := @CBlock.vtx_eq_of_content_eq _ _ (@content_loopStart env kernel ancestors
      fJustCheck st)
    have hclaims := @CBlock.vClaim_eq_of_content_eq _ _ (@content_loopStart env kernel ancestors
      fJustCheck st)
    rcases @connectBlock_cases env kernel ctx ancestors fJustCheck (st.setPool pool) with
      ⟨hnot, failure, hrun⟩ | ⟨hreach, hrun⟩
    · obtain ⟨-, failure', hrun'⟩ := (@connectBlock_cases env kernel ctx ancestors fJustCheck
        (st.setPool pool')).resolve_right fun h =>
          hnot ((reachesLoop_setPool st).mpr ((reachesLoop_setPool st).mp h.1))
      rw [hrun, hrun', connectPrologue_setPool, connectPrologue_setPool]
      exact ⟨by simp, rfl⟩
    · rw [reachesLoop_setPool] at hreach
      have hrun' := ((@connectBlock_cases env kernel ctx ancestors fJustCheck
        (st.setPool pool')).resolve_left fun h => h.1 ((reachesLoop_setPool st).mpr hreach)).2
      rw [hrun, hrun', loopStart_setPool, loopStart_setPool]
      refine connectTransactions_agree hsound hsound' fun hpass => ?_
      unfold SameAttribution at hsame ⊢
      rw [hcontent, hclaims]
      exact hsame (hpass.imp (fun h => ⟨hreach, h⟩) fun h => ⟨hreach, h⟩)

end

namespace SmallNet

theorem sound_learned (env : Env) (claim : CClaim) : (learned env claim).Sound env :=
  ClaimPool.sound_empty.insertClaim (Claim.built_ofCClaim claim)

/-- A claim that a peer has sent, for another source and another target. -/
theorem pools_agree_snapshotBlock : SameAttribution (node false false) snapshotBlock ∅
        (learned (node false false) (mkClaim (payToKeyHash 3) (payToKeyHash 4))) ∧
      (connectBlock (node false false) stakeKernel ordinary (genesisChain (node false false)) false
        ((second (node false false) snapshotBlock).setPool
          (learned (node false false) (mkClaim (payToKeyHash 3) (payToKeyHash 4))))).result =
        .ok () := by
  have hsame : SameAttribution (node false false) (second (node false false) snapshotBlock).block ∅
      (learned (node false false) (mkClaim (payToKeyHash 3) (payToKeyHash 4))) := by
    decide +kernel
  refine ⟨hsame, ((pools_agree ClaimPool.sound_empty (sound_learned _ _)).2 fun _ => hsame).1.mp ?_⟩
  exact passed_iff.mp (by decide +kernel)

/-- A valid claim that a peer has sent keeps the claim of a block on the same source out
of the pool, and the block that pays the claim it carries is rejected. -/
theorem learned_claim_changes_verdict :
    ((Claim.ofCClaim (node false false) (mkClaim (payToKeyHash 1) (payToKeyHash 5))).isValid
        (node false false)).2 = .OK ∧
      (connectBlock (node false false) stakeKernel ordinary (genesisChain (node false false)) false
        ((second (node false false) snapshotBlock).setPool ∅)).result = .ok () ∧
      (connectBlock (node false false) stakeKernel ordinary (genesisChain (node false false)) false
        ((second (node false false) snapshotBlock).setPool
          (learned (node false false) (mkClaim (payToKeyHash 1) (payToKeyHash 5))))).result =
        .error (.invalid .BLOCK_CONSENSUS "bad-claim-format") := by
  refine ⟨by decide +kernel, passed_iff.mp (by decide +kernel), by decide +kernel⟩

end SmallNet

end Patchcoin
