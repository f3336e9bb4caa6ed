import Patchcoin.Chain.Caps

/-!
# What a rejected block leaves behind

`connectBlock` writes three things before it knows that the block is valid: the
stake of the block goes into the set of stakes seen, the claims of the block go
into the pool, and, once all tests have passed, the records are written before
the undo data.  Nothing takes the first two back when a later test fails, nor the third when
the undo data cannot be written, and the pool is also written by a dry run.

`no_trace_iff` says exactly when a block that was not connected leaves no trace.
The stake is written if the contextual checks pass and it is new
(`WritesStake`).  The pool is written if the first transaction with inputs gets
as far as the insert loop, and that loop reaches a claim that does not overlap
with the pool (`WritesPool`): from then on the claims of the block all overlap
with it, so later transactions add nothing.  The records are written if every test passes
(`WritesRecords`).
-/

namespace Patchcoin

open ClaimPool Outcome Claim CBlockIndex

variable {env : Env} {kernel : Kernel} {ctx : Circumstances} {ancestors : IndexChain}
  {fJustCheck : Bool} {nTimeTx : UInt32} {vClaim : List CClaim} {pool : ClaimPool}

/-! ## The insert loop -/

/-- The insert loop reaches a claim of the block that does not overlap with the pool. -/
def Insertable (env : Env) (nTimeTx : UInt32) (vClaim : List CClaim) (pool : ClaimPool) : Prop :=
  ∃ front claim back, vClaim = front ++ claim :: back ∧
    (∀ other ∈ front, blockClaimVerdict env nTimeTx other = .ok ()) ∧
    (checkedClaim env claim).2 = .OK ∧ pool.isUnique (checkedClaim env claim).1 = true

theorem not_insertable_nil : ¬ Insertable env nTimeTx [] pool := by
  rintro ⟨front, claim, back, hsplit, -⟩
  exact absurd hsplit.symm (by simp)

theorem insertable_cons {claim : CClaim} {rest : List CClaim} :
    Insertable env nTimeTx (claim :: rest) pool ↔
      ((checkedClaim env claim).2 = .OK ∧ pool.isUnique (checkedClaim env claim).1 = true) ∨
      (blockClaimVerdict env nTimeTx claim = .ok () ∧ Insertable env nTimeTx rest pool) := by
  constructor
  · rintro ⟨front, found, back, hsplit, hfront, hvalid, hunique⟩
    cases front with
    | nil =>
      obtain ⟨rfl, rfl⟩ := List.cons.inj hsplit
      exact .inl ⟨hvalid, hunique⟩
    | cons first front =>
      obtain ⟨rfl, rfl⟩ := List.cons.inj hsplit
      obtain ⟨hfirst, hrest⟩ := List.forall_mem_cons.mp hfront
      exact .inr ⟨hfirst, front, found, back, rfl, hrest, hvalid, hunique⟩
  · rintro (⟨hvalid, hunique⟩ | ⟨hfirst, front, found, back, rfl, hrest, hvalid, hunique⟩)
    · exact ⟨[], claim, rest, rfl, by simp, hvalid, hunique⟩
    · exact ⟨claim :: front, found, back, rfl, List.forall_mem_cons.mpr ⟨hfirst, hrest⟩, hvalid,
        hunique⟩

/-- A claim that is not valid or overlaps with the pool is not added. -/
theorem insertBlockClaim_of_not_new {claim : CClaim} (h : ¬ ((checkedClaim env claim).2 = .OK ∧
      pool.isUnique (checkedClaim env claim).1 = true)) :
    insertBlockClaim env nTimeTx claim pool = ⟨pool, blockClaimVerdict env nTimeTx claim⟩ := by
  rw [insertBlockClaim_eq]
  split_ifs with hvalid
  · rw [merge_of_not_isUnique (Bool.eq_false_iff.mpr fun hunique => h ⟨hvalid, hunique⟩)]
  · rfl

theorem insertBlockClaims_of_not_insertable (h : ¬ Insertable env nTimeTx vClaim pool) :
    (insertBlockClaims env nTimeTx vClaim pool).state = pool := by
  unfold insertBlockClaims
  induction vClaim with
  | nil => rfl
  | cons claim rest ih =>
    rw [insertable_cons, not_or] at h
    have hstep := @insertBlockClaim_of_not_new env nTimeTx pool claim h.1
    cases hverdict : blockClaimVerdict env nTimeTx claim with
    | error failure => rw [state_forEach_cons_of_error (by rw [hstep, hverdict]), hstep]
    | ok value =>
      rw [state_forEach_cons_of_ok (by rw [hstep, hverdict]), hstep]
      exact ih fun hrest => h.2 ⟨hverdict, hrest⟩

theorem ClaimPool.contains_mergeAll {key : CScript} (h : pool.contains key = true)
    (vClaim : List CClaim) : (pool.mergeAll env vClaim).contains key = true := by
  rw [Std.ExtTreeMap.contains_eq_isSome_getElem?] at h ⊢
  obtain ⟨entry, hentry⟩ := Option.isSome_iff_exists.mp h
  rw [getElem?_mergeAll_of_some hentry]
  rfl

/-- A claim that does not overlap gets a new key in the pool. -/
theorem contains_insertBlockClaims (h : Insertable env nTimeTx vClaim pool) :
    ∃ key, pool.contains key = false ∧
      (insertBlockClaims env nTimeTx vClaim pool).state.contains key = true := by
  induction vClaim with
  | nil => exact absurd h not_insertable_nil
  | cons claim rest ih =>
    by_cases hnew : (checkedClaim env claim).2 = .OK ∧
        pool.isUnique (checkedClaim env claim).1 = true
    · obtain ⟨hvalid, hunique⟩ := hnew
      refine ⟨(checkedClaim env claim).1.getSource,
        not_contains_of_isUnique hunique, ?_⟩
      have hstep : (insertBlockClaim env nTimeTx claim pool).state.contains
          (checkedClaim env claim).1.getSource = true := by
        rw [insertBlockClaim_eq, if_pos hvalid]
        unfold merge
        rw [if_pos hunique, Std.ExtTreeMap.contains_insert]
        simp
      -- the rest of the loop keeps the key
      refine andThen_invariant
        (P := fun next : ClaimPool => next.contains (checkedClaim env claim).1.getSource = true)
        hstep ?_
      intro _ _ hnext
      obtain ⟨merged, -, hstate⟩ := @insertBlockClaims_state env nTimeTx rest
        (insertBlockClaim env nTimeTx claim pool).state
      unfold insertBlockClaims at hstate
      rw [hstate]
      exact contains_mergeAll hnext merged
    · obtain ⟨hverdict, hrest⟩ := (insertable_cons.mp h).resolve_left hnew
      have hstep := @insertBlockClaim_of_not_new env nTimeTx pool claim hnew
      unfold insertBlockClaims at ih ⊢
      rw [state_forEach_cons_of_ok (by rw [hstep, hverdict]), hstep]
      exact ih hrest

/-! ## The transaction loop -/

section Loop

variable {pindex : CBlockIndex} {block : CBlock} {tx : CTransaction} {txs : List CTransaction}
  {loop : TxLoop}

/-- A transaction gets as far as the insert loop. -/
def ReachesInsert (env : Env) (pindex : CBlockIndex) (block : CBlock) (tx : CTransaction)
    (view : CCoinsView) : Prop :=
  tx.isCoinBase = false ∧
    (∃ txfee, checkTxInputs env view tx pindex.nHeight (txTime tx block) = .ok txfee) ∧
    checkClaimGuards env view tx (txTime tx block) block.vClaim = .ok ()

/-- After the transactions of a block without inputs, the first one with inputs gets as
far as the insert loop, which then adds a claim. -/
def TxsWritePool (env : Env) (ctx : Circumstances) (pindex : CBlockIndex)
    (ancestors : IndexChain) (block : CBlock) (txs : List CTransaction) (loop : TxLoop) : Prop :=
  ∃ front tx back, txs = front ++ tx :: back ∧ (∀ other ∈ front, other.isCoinBase = true) ∧
    (Outcome.forEach (connectTx env ctx pindex ancestors block) front loop).result =
      .ok () ∧
    ReachesInsert env pindex block tx
      (Outcome.forEach (connectTx env ctx pindex ancestors block) front loop).state.view ∧
    Insertable env (txTime tx block) block.vClaim loop.g_claims

theorem image_connectTx_of_reaches (h : ReachesInsert env pindex block tx loop.view) :
    (connectTx env ctx pindex ancestors block tx loop).state.g_claims.image
        forgetElectrum =
      (insertBlockClaims env (txTime tx block) block.vClaim loop.g_claims).state.image
        forgetElectrum := by
  obtain ⟨hcoinbase, ⟨txfee, hinputs⟩, hguards⟩ := h
  rw [toClaimState_connectTx, claimsAfter, hcoinbase, if_neg Bool.false_ne_true, hinputs]
  by_cases hne : block.vClaim = []
  · rw [hne, checkClaims_nil]
    rfl
  rw [checkClaims_of_ne_nil hne, hguards]
  cases hmerged : (insertBlockClaims env (txTime tx block) block.vClaim loop.g_claims).result with
  | error failure => rfl
  | ok value =>
    rw [insertBlockClaims_state_of_ok hmerged]
    exact image_checkClaimOutputs forgetElectrum_isValid _ _

/-- A transaction that does not get as far leaves the claims alone, and passes only if
it has no inputs. -/
theorem connectTx_of_not_reaches (hne : block.vClaim ≠ [])
    (h : ¬ ReachesInsert env pindex block tx loop.view) :
    (connectTx env ctx pindex ancestors block tx loop).state.toClaimState =
        loop.toClaimState ∧
      (tx.isCoinBase = false →
        (connectTx env ctx pindex ancestors block tx loop).result ≠ .ok ()) := by
  rw [toClaimState_connectTx, claimsAfter]
  cases hcoinbase : tx.isCoinBase with
  | true => exact ⟨rfl, fun hfalse => absurd hfalse (by simp)⟩
  | false =>
    rw [if_neg Bool.false_ne_true]
    refine ⟨?_, fun _ hok => h ?_⟩
    · cases hinputs : checkTxInputs env loop.view tx pindex.nHeight (txTime tx block) with
      | error failure => rfl
      | ok txfee =>
        rw [checkClaims_of_ne_nil hne]
        cases hguards : checkClaimGuards env loop.view tx (txTime tx block) block.vClaim with
        | error failure => rfl
        | ok value => exact absurd ⟨hcoinbase, ⟨txfee, hinputs⟩, hguards⟩ h
    · obtain ⟨hinputs, hclaims⟩ := (connectTx_of_ok hok).2.2 hcoinbase
      exact ⟨hcoinbase, hinputs, ((checkClaims_ok_iff hne).mp hclaims).1⟩

/-- Every key of the pool stays. -/
theorem contains_connectTxs {key : CScript} (h : loop.g_claims.contains key = true)
    (txs : List CTransaction) : (forEach (connectTx env ctx pindex ancestors block) txs
      loop).state.g_claims.contains key = true := by
  refine connectTxs_claims (P := fun claims => claims.g_claims.contains key = true) ?_ h
  intro tx view claims hclaims
  obtain ⟨merged, -, himage⟩ := @checkClaims_pool env ancestors (txTime tx block) _
    forgetElectrum tx view forgetElectrum_isValid block.vClaim claims
  rw [← contains_image, himage, contains_image]
  exact contains_mergeAll hclaims merged

/-- If all claims of the block overlap with the pool, the loop adds nothing to it. -/
theorem image_connectTxs_of_overlap
    (hoverlap : ∀ claim ∈ block.vClaim, pool.isUnique (checkedClaim env claim).1 = false)
    (himage : loop.g_claims.image forgetElectrum = pool.image forgetElectrum)
    (txs : List CTransaction) : (forEach (connectTx env ctx pindex ancestors block) txs
      loop).state.g_claims.image forgetElectrum = pool.image forgetElectrum := by
  refine connectTxs_claims (P := fun claims =>
    claims.g_claims.image forgetElectrum = pool.image forgetElectrum) ?_ himage
  intro tx view claims hclaims
  obtain ⟨merged, hmerged, hresult⟩ := @checkClaims_pool env ancestors (txTime tx block) _
    forgetElectrum tx view forgetElectrum_isValid block.vClaim claims
  have htargets : claims.g_claims.image getTarget = pool.image getTarget := by
    refine image_eq_of_image_eq hclaims fun claim claim' hclaim => ?_
    have htarget := congrArg getTarget hclaim
    exact htarget
  have hself : claims.g_claims.mergeAll env merged = claims.g_claims := by
    apply mergeAll_eq_self
    intro claim hclaim
    rw [isUnique_congr htargets]
    exact hoverlap claim (hmerged.mem hclaim)
  rw [hresult, hself]
  exact hclaims

theorem toClaimState_connectTx_of_coinbase (h : tx.isCoinBase = true) :
    (connectTx env ctx pindex ancestors block tx loop).state.toClaimState =
      loop.toClaimState := by
  rw [toClaimState_connectTx, claimsAfter, if_pos h]

theorem txsWritePool_cons {rest : List CTransaction} :
    TxsWritePool env ctx pindex ancestors block (tx :: rest) loop ↔
      (ReachesInsert env pindex block tx loop.view ∧
        Insertable env (txTime tx block) block.vClaim loop.g_claims) ∨
      (tx.isCoinBase = true ∧
        (connectTx env ctx pindex ancestors block tx loop).result = .ok () ∧
        TxsWritePool env ctx pindex ancestors block rest
          (connectTx env ctx pindex ancestors block tx loop).state) := by
  have hpool (hcoinbase : tx.isCoinBase = true) :
      (connectTx env ctx pindex ancestors block tx loop).state.g_claims =
        loop.g_claims :=
    congrArg ClaimState.g_claims (toClaimState_connectTx_of_coinbase hcoinbase)
  constructor
  · rintro ⟨front, found, back, hsplit, hfront, hpassed, hreaches, hinsertable⟩
    cases front with
    | nil =>
      obtain ⟨rfl, rfl⟩ := List.cons.inj hsplit
      exact .inl ⟨hreaches, hinsertable⟩
    | cons first front =>
      obtain ⟨rfl, rfl⟩ := List.cons.inj hsplit
      obtain ⟨hcoinbase, hothers⟩ := List.forall_mem_cons.mp hfront
      obtain ⟨hfirst, hrest⟩ := forEach_cons_eq_ok_iff.mp hpassed
      rw [state_forEach_cons_of_ok hfirst] at hreaches
      rw [← hpool hcoinbase] at hinsertable
      exact .inr ⟨hcoinbase, hfirst, front, found, back, rfl, hothers, hrest, hreaches,
        hinsertable⟩
  · rintro (⟨hreaches, hinsertable⟩ | ⟨hcoinbase, hfirst, front, found, back, rfl, hothers, hrest,
      hreaches, hinsertable⟩)
    · exact ⟨[], tx, rest, rfl, by simp, rfl, hreaches, hinsertable⟩
    · refine ⟨tx :: front, found, back, rfl, List.forall_mem_cons.mpr ⟨hcoinbase, hothers⟩,
        forEach_cons_eq_ok_iff.mpr ⟨hfirst, hrest⟩, ?_, ?_⟩
      · rw [state_forEach_cons_of_ok hfirst]
        exact hreaches
      · rw [← hpool hcoinbase]
        exact hinsertable

/-- A claim that the insert loop adds is still there at the end. -/
theorem image_connectTxs_ne (hreaches : ReachesInsert env pindex block tx loop.view)
    (hinsertable : Insertable env (txTime tx block) block.vClaim loop.g_claims)
    (rest : List CTransaction) :
    (forEach (connectTx env ctx pindex ancestors block) (tx :: rest)
        loop).state.g_claims.image forgetElectrum ≠
      loop.g_claims.image forgetElectrum := by
  intro hsame
  obtain ⟨key, habsent, hpresent⟩ := contains_insertBlockClaims hinsertable
  have hafter : (connectTx env ctx pindex ancestors block tx
      loop).state.g_claims.contains key = true := by
    rw [← contains_image, image_connectTx_of_reaches hreaches, contains_image]
    exact hpresent
  have hend : (forEach (connectTx env ctx pindex ancestors block)
      (tx :: rest) loop).state.g_claims.contains key = true := by
    refine andThen_invariant
      (P := fun next : TxLoop => next.g_claims.contains key = true) hafter ?_
    intro _ _ hnext
    exact contains_connectTxs hnext rest
  rw [← contains_image, hsame, contains_image, habsent] at hend
  exact Bool.false_ne_true hend

/-- If the first transaction with inputs adds nothing, the later ones do not either. -/
theorem image_connectTxs_eq (hne : block.vClaim ≠ [])
    (hreaches : ReachesInsert env pindex block tx loop.view)
    (hnot : ¬ Insertable env (txTime tx block) block.vClaim loop.g_claims)
    (rest : List CTransaction) :
    (forEach (connectTx env ctx pindex ancestors block) (tx :: rest)
        loop).state.g_claims.image forgetElectrum =
      loop.g_claims.image forgetElectrum := by
  have himage := @image_connectTx_of_reaches env ctx ancestors pindex block tx loop
    hreaches
  rw [insertBlockClaims_of_not_insertable hnot] at himage
  cases hresult : (connectTx env ctx pindex ancestors block tx loop).result with
  | error failure => rw [state_forEach_cons_of_error hresult, himage]
  | ok value =>
    rw [state_forEach_cons_of_ok hresult]
    refine image_connectTxs_of_overlap ?_ himage rest
    -- the insert loop went through all claims and found none to add
    have hclaims := ((connectTx_of_ok hresult).2.2 hreaches.1).2
    have hverdicts := insertBlockClaims_ok_iff.mp ((checkClaims_ok_iff hne).mp hclaims).2.1
    intro claim hclaim
    rw [Bool.eq_false_iff]
    intro hunique
    obtain ⟨front, back, hsplit⟩ := List.append_of_mem hclaim
    refine hnot ⟨front, claim, back, hsplit, ?_, ?_, hunique⟩
    · intro other hother
      exact hverdicts other (hsplit ▸ List.mem_append_left _ hother)
    · exact (blockClaimVerdict_eq_ok_iff.mp (hverdicts claim hclaim)).1

/-- When the transaction loop leaves the pool as it was. -/
theorem image_connectTxs_iff (hne : block.vClaim ≠ []) :
    (forEach (connectTx env ctx pindex ancestors block) txs
        loop).state.g_claims.image forgetElectrum =
      loop.g_claims.image forgetElectrum ↔
    ¬ TxsWritePool env ctx pindex ancestors block txs loop := by
  induction txs generalizing loop with
  | nil =>
    refine iff_of_true rfl ?_
    rintro ⟨front, tx, back, hsplit, -⟩
    exact absurd hsplit.symm (by simp)
  | cons tx rest ih =>
    rw [txsWritePool_cons]
    by_cases hreaches : ReachesInsert env pindex block tx loop.view
    · have hinputs : ¬ tx.isCoinBase = true := by
        rw [hreaches.1]
        exact Bool.false_ne_true
      by_cases hinsertable : Insertable env (txTime tx block) block.vClaim loop.g_claims
      · exact iff_of_false (image_connectTxs_ne hreaches hinsertable rest)
          (not_not_intro (.inl ⟨hreaches, hinsertable⟩))
      · refine iff_of_true (image_connectTxs_eq hne hreaches hinsertable rest) ?_
        rintro (⟨-, hadds⟩ | ⟨hcoinbase, -⟩)
        · exact hinsertable hadds
        · exact hinputs hcoinbase
    · obtain ⟨hsame, hinputs⟩ := @connectTx_of_not_reaches env ctx ancestors pindex block
        tx loop hne hreaches
      have hpool : (connectTx env ctx pindex ancestors block tx loop).state.g_claims =
          loop.g_claims := congrArg ClaimState.g_claims hsame
      cases hresult : (connectTx env ctx pindex ancestors block tx loop).result with
      | error failure =>
        rw [state_forEach_cons_of_error hresult, hpool]
        refine iff_of_true rfl ?_
        rintro (⟨hadds, -⟩ | ⟨-, hpassed, -⟩)
        · exact hreaches hadds
        · cases hpassed
      | ok value =>
        have hcoinbase : tx.isCoinBase = true := by
          by_contra hnot
          exact hinputs (Bool.eq_false_iff.mpr hnot) hresult
        rw [state_forEach_cons_of_ok hresult, ← hpool, ih, not_iff_not]
        constructor
        · intro hrest
          exact .inr ⟨hcoinbase, rfl, hrest⟩
        · rintro (⟨hadds, -⟩ | ⟨-, -, hrest⟩)
          · exact absurd hadds hreaches
          · exact hrest

end Loop

/-! ## The stake -/

section Stake

variable {st : ConnectState}

/-- The call adds the stake of the block to the set of stakes seen. -/
def WritesStake (env : Env) (kernel : Kernel) (ancestors : IndexChain) (fJustCheck : Bool)
    (st : ConnectState) : Prop :=
  fJustCheck = false ∧ st.pindex.hashBlock = st.block.getHash env.host.hash256 ∧
    ¬ (st.block.getHash env.host.hash256 ≠ env.params.hashGenesisBlock ∧
      st.pindex.isProofOfWork = true) ∧
    (st.pindex.nStakeModifier = 0 ∧ st.pindex.nStakeModifierChecksum = 0) ∧
    -- the contextual checks pass
    (peercoinContextualBlockChecks kernel ancestors true st).result = .ok () ∧
    st.block.isProofOfStake = true ∧
    (st.block.getProofOfStake.1, st.pindex.nTime) ∉ st.setStakeSeen

theorem setStakeSeen_peercoinContextualBlockChecks (st : ConnectState) :
    (peercoinContextualBlockChecks kernel ancestors fJustCheck st).state.setStakeSeen =
        st.setStakeSeen ↔
      ¬ (fJustCheck = false ∧
        (peercoinContextualBlockChecks kernel ancestors true st).result = .ok () ∧
        st.block.isProofOfStake = true ∧
        (st.block.getProofOfStake.1, st.pindex.nTime) ∉ st.setStakeSeen) := by
  rcases @peercoinContextualBlockChecks_cases kernel ancestors st with
    ⟨failure, -, hfail⟩ | ⟨hashProofOfStake, _, _, _, _, -, -, hdry, hwrite⟩
  · rw [hfail fJustCheck, hfail true]
    simp
  · rw [hdry]
    cases fJustCheck with
    | true => rw [hdry]; simp
    | false =>
      obtain ⟨_, _, _, hnote⟩ := noteStake_cases hashProofOfStake st
      rw [hwrite, hnote]
      dsimp only [Outcome.pass]
      split_ifs with hstake
      · by_cases hseen : (st.block.getProofOfStake.1, st.pindex.nTime) ∈ st.setStakeSeen
        · rw [List.insert_of_mem hseen]
          simp [hseen]
        · rw [List.insert_of_not_mem hseen]
          simp [hseen, hstake]
      · simp [hstake]

theorem setStakeSeen_connectCheckBlock (st : ConnectState) :
    (connectCheckBlock env fJustCheck st).state.setStakeSeen = st.setStakeSeen := by
  unfold connectCheckBlock
  dsimp only
  split <;> rfl

/-- When the tests before the transactions leave the set of stakes as it was. -/
theorem setStakeSeen_connectPrologue_iff (st : ConnectState) :
    (connectPrologue env kernel ancestors fJustCheck st).state.setStakeSeen = st.setStakeSeen ↔
      ¬ WritesStake env kernel ancestors fJustCheck st := by
  unfold connectPrologue WritesStake
  dsimp only
  split_ifs with hhash hwork hmodifier
  · simp [hhash]
  · simp [hwork]
  · have hcheck : ((peercoinContextualBlockChecks kernel ancestors fJustCheck st).andThen
        fun _ st => connectCheckBlock env fJustCheck st).state.setStakeSeen =
        (peercoinContextualBlockChecks kernel ancestors fJustCheck st).state.setStakeSeen := by
      refine andThen_invariant (P := fun next : ConnectState => next.setStakeSeen =
        (peercoinContextualBlockChecks kernel ancestors fJustCheck st).state.setStakeSeen) rfl ?_
      intro _ _ _
      exact setStakeSeen_connectCheckBlock _
    rw [hcheck, setStakeSeen_peercoinContextualBlockChecks]
    rw [ne_eq, not_not] at hhash
    simp only [hhash, hwork, hmodifier, not_false_eq_true, true_and, and_self]
  · refine iff_of_true ?_ ?_
    · rw [andThen_of_ok (result_pass st)]
      exact setStakeSeen_connectCheckBlock _
    · rintro ⟨-, -, -, hzero, -⟩
      exact hmodifier hzero

end Stake

/-! ## The block -/

section Block

variable {st : ConnectState}
variable {st' : ConnectState}

/-- What a call of `ConnectBlock` should not change unless it connects the block.  The
cached answers of the signature service are not compared. -/
structure NoTrace (st st' : ConnectState) : Prop where
  g_claims : st'.g_claims.image Claim.forgetElectrum = st.g_claims.image Claim.forgetElectrum
  g_claimindex : st'.g_claimindex = st.g_claimindex
  setStakeSeen : st'.setStakeSeen = st.setStakeSeen
  nClaims : st'.pindex.nClaims = st.pindex.nClaims
  queuedClaims : st'.pindex.queuedClaims = st.pindex.queuedClaims
  nMint : st'.pindex.nMint = st.pindex.nMint
  nMoneySupply : st'.pindex.nMoneySupply = st.pindex.nMoneySupply

theorem NoTrace.trans {st'' : ConnectState} (h : NoTrace st st') (h' : NoTrace st' st'') :
    NoTrace st st'' :=
  ⟨h'.g_claims.trans h.g_claims, h'.g_claimindex.trans h.g_claimindex,
    h'.setStakeSeen.trans h.setStakeSeen, h'.nClaims.trans h.nClaims,
    h'.queuedClaims.trans h.queuedClaims, h'.nMint.trans h.nMint,
    h'.nMoneySupply.trans h.nMoneySupply⟩

theorem NoTrace.symm (h : NoTrace st st') : NoTrace st' st :=
  ⟨h.g_claims.symm, h.g_claimindex.symm, h.setStakeSeen.symm, h.nClaims.symm,
    h.queuedClaims.symm, h.nMint.symm, h.nMoneySupply.symm⟩

/-- If only stake fields of the entry changed, the pool and the set of stakes decide. -/
theorem noTrace_iff_of_unstaked (hindex : st'.g_claimindex = st.g_claimindex)
    (hentry : st'.pindex.unstaked = st.pindex.unstaked) :
    NoTrace st st' ↔ st'.setStakeSeen = st.setStakeSeen ∧
      st'.g_claims.image forgetElectrum = st.g_claims.image forgetElectrum := by
  have hclaims := congrArg nClaims hentry
  have hqueued := congrArg queuedClaims hentry
  have hmint := congrArg nMint hentry
  have hsupply := congrArg nMoneySupply hentry
  constructor
  · intro htrace
    exact ⟨htrace.setStakeSeen, htrace.g_claims⟩
  · rintro ⟨hseen, hpool⟩
    exact ⟨hpool, hindex, hseen, hclaims, hqueued, hmint, hsupply⟩

/-- The call adds a claim of the block to the pool. -/
def WritesPool (env : Env) (kernel : Kernel) (ctx : Circumstances)
    (ancestors : IndexChain) (fJustCheck : Bool) (st : ConnectState) : Prop :=
  ReachesLoop env kernel ancestors fJustCheck st ∧
    TxsWritePool env ctx (loopStart env kernel ancestors fJustCheck st).pindex ancestors
      (loopStart env kernel ancestors fJustCheck st).block
      (loopStart env kernel ancestors fJustCheck st).block.vtx
      { g_claims := st.g_claims, claims := ∅, queued_claims := []
        view := (loopStart env kernel ancestors fJustCheck st).view }

/-- All tests pass, and what is recorded before the undo data differs from what the entry, the
claims and the index hold. -/
def WritesRecords (env : Env) (kernel : Kernel) (ctx : Circumstances)
    (ancestors : IndexChain) (fJustCheck : Bool) (st : ConnectState) : Prop :=
  let start := loopStart env kernel ancestors fJustCheck st
  fJustCheck = false ∧ ReachesLoop env kernel ancestors fJustCheck st ∧
    LoopPasses env ctx ancestors start ∧
    ¬ NoTrace (loopEnd env ctx ancestors start)
      (recordBlock env ancestors (connectLoop env ctx ancestors start).state
        (loopEnd env ctx ancestors start))

theorem loopStart_staged (st : ConnectState) :
    st.g_claims = (loopStart env kernel ancestors fJustCheck st).g_claims ∧
      (loopStart env kernel ancestors fJustCheck st).g_claimindex = st.g_claimindex ∧
      (loopStart env kernel ancestors fJustCheck st).setStakeSeen =
        (connectPrologue env kernel ancestors fJustCheck st).state.setStakeSeen ∧
      (loopStart env kernel ancestors fJustCheck st).pindex.unstaked = st.pindex.unstaked := by
  have hstaged := @connectPrologue_staged env kernel ancestors fJustCheck st
  rw [loopStart, setGenesisBest_eq]
  exact ⟨hstaged.g_claims.symm, hstaged.g_claimindex, rfl, hstaged.pindex⟩

/-- When the transaction loop of a block leaves the pool as it was. -/
theorem image_connectLoop_iff (st : ConnectState) :
    (connectLoop env ctx ancestors st).state.g_claims.image forgetElectrum =
      st.g_claims.image forgetElectrum ↔
    ¬ TxsWritePool env ctx st.pindex ancestors st.block st.block.vtx
      { g_claims := st.g_claims, claims := ∅, queued_claims := [], view := st.view } := by
  by_cases hnil : st.block.vClaim = []
  · refine iff_of_true ?_ ?_
    · refine image_connectTxs_of_overlap ?_ rfl _
      rw [hnil]
      exact List.forall_mem_nil _
    · rintro ⟨front, tx, back, -, -, -, -, hinsertable⟩
      rw [hnil] at hinsertable
      exact not_insertable_nil hinsertable
  · exact image_connectTxs_iff hnil

theorem noTrace_loopEnd_iff (hreaches : ReachesLoop env kernel ancestors fJustCheck st) :
    NoTrace st (loopEnd env ctx ancestors (loopStart env kernel ancestors fJustCheck st)) ↔
      ¬ WritesStake env kernel ancestors fJustCheck st ∧
        ¬ WritesPool env kernel ctx ancestors fJustCheck st := by
  obtain ⟨hpool, hindex, hseen, hentry⟩ := @loopStart_staged env kernel ancestors fJustCheck st
  have hloop := @image_connectLoop_iff env ctx ancestors
    (loopStart env kernel ancestors fJustCheck st)
  have hiff := @noTrace_iff_of_unstaked st (loopEnd env ctx ancestors
    (loopStart env kernel ancestors fJustCheck st)) hindex hentry
  dsimp only [loopEnd] at hiff ⊢
  rw [hiff, ← setStakeSeen_connectPrologue_iff, hseen, WritesPool, hpool, hloop]
  refine and_congr_right fun _ => not_congr ?_
  exact ⟨fun hwrites => ⟨hreaches, hwrites⟩, fun hwrites => hwrites.2⟩

theorem contains_recordBlock (loop : TxLoop) (st : ConnectState) (key : CScript) :
    (recordBlock env ancestors loop st).g_claims.contains key = st.g_claims.contains key := by
  refine List.foldlRecOn (motive := fun next : ConnectState =>
    next.g_claims.contains key = st.g_claims.contains key) _ _ rfl fun next hnext payout _ => ?_
  unfold recordClaim
  cases hclaim : next.g_claims[payout.1]? with
  | none => exact hnext
  | some claim =>
    rw [← hnext]
    dsimp only
    rw [Std.ExtTreeMap.contains_insert, Bool.or_eq_right_iff_imp]
    intro hkey
    rw [← Std.LawfulEqCmp.eq_of_compare (beq_iff_eq.mp hkey),
      Std.ExtTreeMap.contains_eq_isSome_getElem?, hclaim]
    rfl

/-- The records do not take back what the loop has added to the pool. -/
theorem noTrace_recordBlock_iff {start : ConnectState} (hpool : st.g_claims = start.g_claims)
    (hindex : start.g_claimindex = st.g_claimindex)
    (hentry : start.pindex.unstaked = st.pindex.unstaked) :
    NoTrace st (recordBlock env ancestors (connectLoop env ctx ancestors start).state
        (loopEnd env ctx ancestors start)) ↔
      NoTrace st (loopEnd env ctx ancestors start) ∧
        NoTrace (loopEnd env ctx ancestors start)
          (recordBlock env ancestors (connectLoop env ctx ancestors start).state
            (loopEnd env ctx ancestors start)) := by
  refine ⟨fun htrace => ?_, fun htraces => htraces.1.trans htraces.2⟩
  have hloop : NoTrace st (loopEnd env ctx ancestors start) := by
    refine (@noTrace_iff_of_unstaked st (loopEnd env ctx ancestors start) hindex hentry).mpr
      ⟨?_, ?_⟩
    · rw [← htrace.setStakeSeen, (recordBlock_recorded _ _).setStakeSeen]
    · -- a claim that the loop has added would still be there
      have hkeys (key : CScript) : (loopEnd env ctx ancestors start).g_claims.contains key =
          st.g_claims.contains key := by
        rw [← contains_recordBlock (connectLoop env ctx ancestors start).state, ← contains_image,
          htrace.g_claims, contains_image]
      have hgrown := @connectLoop_grown env ctx ancestors start
      rw [← hpool] at hgrown
      refine image_eq_iff.mpr fun key => ?_
      cases hbefore : st.g_claims[key]? with
      | some claim =>
        obtain ⟨claim', hafter, hsame⟩ := hgrown.kept key claim hbefore
        exact (congrArg (Option.map forgetElectrum) hafter).trans (congrArg some hsame)
      | none =>
        have hkey := hkeys key
        rw [Std.ExtTreeMap.contains_eq_isSome_getElem?,
          Std.ExtTreeMap.contains_eq_isSome_getElem?, hbefore] at hkey
        exact congrArg (Option.map forgetElectrum)
          (Option.isNone_iff_eq_none.mp (Option.isSome_eq_false_iff.mp hkey))
  exact ⟨hloop, hloop.symm.trans htrace⟩

/-- A call of `ConnectBlock`, also one that fails or is a dry run, leaves no trace if and only
if it writes neither the stake nor the pool nor records. -/
theorem no_trace_iff :
    NoTrace st (connectBlock env kernel ctx ancestors fJustCheck st).state ↔
      ¬ WritesStake env kernel ancestors fJustCheck st ∧
        ¬ WritesPool env kernel ctx ancestors fJustCheck st ∧
        ¬ WritesRecords env kernel ctx ancestors fJustCheck st := by
  rcases @connectBlock_cases env kernel ctx ancestors fJustCheck st with
    ⟨hstops, failure, hfail⟩ | ⟨hreaches, hrun⟩
  · have hstaged := @connectPrologue_staged env kernel ancestors fJustCheck st
    rw [hfail, state_fail, noTrace_iff_of_unstaked hstaged.g_claimindex hstaged.pindex,
      hstaged.g_claims, setStakeSeen_connectPrologue_iff]
    exact and_congr_right fun _ => iff_of_true rfl
      ⟨fun hwrites => hstops hwrites.1, fun hwrites => hstops hwrites.2.1⟩
  · rw [hrun, ← and_assoc, ← noTrace_loopEnd_iff hreaches]
    -- without records the loop has the last word
    have hloop (hnone : ¬ WritesRecords env kernel ctx ancestors fJustCheck st) :
        NoTrace st (loopEnd env ctx ancestors (loopStart env kernel ancestors fJustCheck st)) ↔
          NoTrace st (loopEnd env ctx ancestors (loopStart env kernel ancestors fJustCheck st)) ∧
            ¬ WritesRecords env kernel ctx ancestors fJustCheck st :=
      (and_iff_left hnone).symm
    rcases @connectTransactions_cases env ctx ancestors fJustCheck
      (loopStart env kernel ancestors fJustCheck st) with
      ⟨hstops, failure, hfail⟩ | ⟨hpasses, hfinish⟩
    · rw [hfail, state_fail]
      exact hloop fun hwrites => hstops hwrites.2.2.1
    · rw [hfinish]
      cases fJustCheck with
      | true => exact hloop fun hwrites => absurd hwrites.1 (by decide)
      | false =>
        obtain ⟨hpool, hindex, -, hentry⟩ := @loopStart_staged env kernel ancestors false st
        obtain ⟨-, _, _, -, hstate⟩ := @finishBlock_cases env ctx ancestors
          ((loopStart env kernel ancestors false st).block.getHash env.host.hash256 ==
            env.params.hashGenesisBlock)
          (connectLoop env ctx ancestors (loopStart env kernel ancestors false st)).state
          (loopEnd env ctx ancestors (loopStart env kernel ancestors false st))
        rw [if_neg Bool.false_ne_true, hstate, WritesRecords]
        -- the status of the entry and the best block are not compared
        have hcompared (recorded : ConnectState) (nStatus : BlockStatus) (view : CCoinsView) :
            NoTrace st { recorded with
              pindex := { recorded.pindex with nStatus }, view } ↔ NoTrace st recorded :=
          ⟨fun h => ⟨h.1, h.2, h.3, h.4, h.5, h.6, h.7⟩,
            fun h => ⟨h.1, h.2, h.3, h.4, h.5, h.6, h.7⟩⟩
        rw [hcompared, noTrace_recordBlock_iff hpool hindex hentry]
        refine and_congr_right fun _ => ?_
        exact ⟨fun h hwrites => hwrites.2.2.2 h,
          fun h => by_contra fun hnot => h ⟨rfl, hreaches, hpasses, hnot⟩⟩

theorem not_writesPool_of_overlap
    (h : ∀ claim ∈ (loopStart env kernel ancestors fJustCheck st).block.vClaim,
      st.g_claims.isUnique (checkedClaim env claim).1 = false) :
    ¬ WritesPool env kernel ctx ancestors fJustCheck st := by
  rintro ⟨-, _, _, _, -, -, -, -, front, claim, back, hclaims, -, -, hunique⟩
  rw [hclaims] at h
  have hoverlap := h claim (List.mem_append_right front List.mem_cons_self)
  exact Bool.eq_false_iff.mp hoverlap hunique

theorem NoTrace.contains (h : NoTrace st st') (key : CScript) :
    st'.g_claims.contains key = st.g_claims.contains key := by
  rw [← contains_image, h.g_claims, contains_image]

end Block

open SmallNet in
/-- The dry run of a block on a node that already knows the claim of the block. -/
theorem no_trace_knownClaim :
    let st := { second (node false false) snapshotBlock with
      g_claims := learned (node false false) (mkClaim (payToKeyHash 1) (payToKeyHash 2)) }
    st.block.vClaim ≠ [] ∧ NoTrace st (connectBlock (node false false) stakeKernel ordinary
      (genesisChain (node false false)) true st).state := by
  intro st
  refine ⟨by decide +kernel, no_trace_iff.mpr ⟨?_, ?_, ?_⟩⟩
  · rintro ⟨hfalse, -⟩
    cases hfalse
  · exact not_writesPool_of_overlap (by decide +kernel)
  · rintro ⟨hfalse, -⟩
    cases hfalse

open SmallNet in
/-- A block that is rejected for one of its outputs leaves its claim in the pool and its
stake in the set of stakes, and the dry run of a valid block leaves its claim. -/
theorem rejected_block_leaves_trace :
    (connectBlock (node false false) stakeKernel ordinary (genesisChain (node false false)) false
        (second (node false false) strayBlock)).result =
        .error (.invalid .BLOCK_CONSENSUS "bad-claim-format") ∧
      ¬ NoTrace (second (node false false) strayBlock)
        (connectBlock (node false false) stakeKernel ordinary (genesisChain (node false false))
          false (second (node false false) strayBlock)).state ∧
      (connectBlock (node false false) stakeKernel ordinary (genesisChain (node false false)) false
        (second (node false false) strayBlock)).state.setStakeSeen ≠
        (second (node false false) strayBlock).setStakeSeen ∧
      ¬ NoTrace (second (node false false) snapshotBlock)
        (connectBlock (node false false) stakeKernel ordinary (genesisChain (node false false)) true
          (second (node false false) snapshotBlock)).state := by
  have hstray : (connectBlock (node false false) stakeKernel ordinary
        (genesisChain (node false false)) false
        (second (node false false) strayBlock)).state.g_claims.contains (payToKeyHash 1) ≠
      (second (node false false) strayBlock).g_claims.contains (payToKeyHash 1) := by
    decide +kernel
  have hdry : (connectBlock (node false false) stakeKernel ordinary
        (genesisChain (node false false)) true
        (second (node false false) snapshotBlock)).state.g_claims.contains (payToKeyHash 1) ≠
      (second (node false false) snapshotBlock).g_claims.contains (payToKeyHash 1) := by
    decide +kernel
  exact ⟨by decide +kernel, fun htrace => hstray (htrace.contains _), by decide +kernel,
    fun htrace => hdry (htrace.contains _)⟩

end Patchcoin
