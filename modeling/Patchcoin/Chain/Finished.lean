import Patchcoin.Chain.ConnectSteps
import Patchcoin.Consensus.CheckBlockSteps

/-!
# The state after a connected block

`connectBlock` first checks the stake and the block by itself, which changes
the stake fields of the index entry and the flags of the object only
(`ConnectState.Staged`).  When it returns true, its prologue, its transaction loop and its
tests on the totals have passed (`connectBlock_of_ok`).  The coins are then those
of the loop, and the entry of the block holds the sums of the loop next to the
records of `recordBlock`, which touches nothing in the entry but `nClaims`.
-/

namespace Patchcoin

open CBlockIndex

variable {env : Env} {kernel : Kernel} {ctx : Circumstances} {ancestors : IndexChain}
  {fJustCheck : Bool} {st : ConnectState}
variable {pindex pindex' : CBlockIndex} {first second third : ConnectState}

/-! ## Before the transactions -/

/-- The index entry without what the stake checks write. -/
def CBlockIndex.unstaked (pindex : CBlockIndex) : CBlockIndex :=
  { pindex with
    nFlags := 0
    nStakeModifier := 0
    nStakeModifierChecksum := 0
    prevoutStake := COutPoint.null
    nStakeTime := 0
    hashProofOfStake := 0 }

theorem CBlockIndex.fields_of_unstaked_eq (h : pindex'.unstaked = pindex.unstaked) :
    pindex'.nHeight = pindex.nHeight ∧ pindex'.nTime = pindex.nTime ∧
      pindex'.nClaims = pindex.nClaims := by
  have hheight := congrArg nHeight h
  have htime := congrArg nTime h
  have hclaims := congrArg nClaims h
  exact ⟨hheight, htime, hclaims⟩

theorem CBlockIndex.hashBlock_of_unstaked_eq (h : pindex'.unstaked = pindex.unstaked) :
    pindex'.hashBlock = pindex.hashBlock := by
  have hhash := congrArg hashBlock h
  exact hhash

/-- The states differ in stake fields and in remembered verdicts only. -/
structure ConnectState.Staged (st st' : ConnectState) : Prop where
  g_claims : st'.g_claims = st.g_claims
  g_claimindex : st'.g_claimindex = st.g_claimindex
  view : st'.view = st.view
  content : st'.block.content = st.block.content
  pindex : st'.pindex.unstaked = st.pindex.unstaked

theorem ConnectState.Staged.refl (st : ConnectState) : st.Staged st := ⟨rfl, rfl, rfl, rfl, rfl⟩

theorem ConnectState.Staged.trans (h : first.Staged second) (h' : second.Staged third) :
    first.Staged third :=
  ⟨h'.g_claims.trans h.g_claims, h'.g_claimindex.trans h.g_claimindex, h'.view.trans h.view,
    h'.content.trans h.content, h'.pindex.trans h.pindex⟩

theorem noteStake_cases (hashProofOfStake : Uint256) (st : ConnectState) :
    ∃ prevoutStake nStakeTime hashProofOfStake', noteStake hashProofOfStake st = { st with
      pindex := { st.pindex with
        prevoutStake, nStakeTime, hashProofOfStake := hashProofOfStake' }
      setStakeSeen := if st.block.isProofOfStake then
        st.setStakeSeen.insert (st.block.getProofOfStake.1, st.pindex.nTime)
        else st.setStakeSeen } := by
  unfold noteStake
  split_ifs
  · exact ⟨_, _, _, rfl⟩
  · exact ⟨_, _, _, rfl⟩

/-- The contextual checks fail and write nothing, or they pass.  Then they write the stake of
the block and the new modifier, unless they are a dry run. -/
theorem peercoinContextualBlockChecks_cases (st : ConnectState) :
    (∃ failure, (checkStake kernel ancestors st = .error failure ∨ failure = .silent) ∧
      ∀ fJustCheck, peercoinContextualBlockChecks kernel ancestors fJustCheck st =
        .fail st failure) ∨
    ∃ hashProofOfStake nStakeModifier fGenerated nEntropy nStakeModifierChecksum,
      kernel.computeNextStakeModifier st.pindex ancestors = some (nStakeModifier, fGenerated) ∧
      nEntropy &&& CBlockIndex.BLOCK_STAKE_MODIFIER = 0 ∧
      peercoinContextualBlockChecks kernel ancestors true st = .pass st ∧
      peercoinContextualBlockChecks kernel ancestors false st =
        .pass { noteStake hashProofOfStake st with
          pindex := { (noteStake hashProofOfStake st).pindex with
            nFlags := st.pindex.nFlags ||| nEntropy |||
              if fGenerated then CBlockIndex.BLOCK_STAKE_MODIFIER else 0
            nStakeModifier
            nStakeModifierChecksum } } := by
  unfold peercoinContextualBlockChecks
  cases hstake : checkStake kernel ancestors st with
  | error failure => exact .inl ⟨failure, .inl rfl, fun _ => rfl⟩
  | ok hashProofOfStake =>
    cases kernel.computeNextStakeModifier st.pindex ancestors with
    | none => exact .inl ⟨.silent, .inr rfl, fun _ => rfl⟩
    | some modifier =>
      dsimp only
      cases hchecksum : stagedChecksum kernel ancestors hashProofOfStake modifier.1 modifier.2
          st with
      | none => exact .inl ⟨.silent, .inr rfl, fun _ => rfl⟩
      | some checksum =>
        dsimp only
        cases kernel.checkStakeModifierCheckpoints st.pindex.nHeight checksum with
        | false => exact .inl ⟨.silent, .inr rfl, fun _ => rfl⟩
        | true =>
          -- the entropy bit was in range when the checksum was computed
          have hbit : ¬ 1 < kernel.getStakeEntropyBit st.block := by
            intro hlarge
            rw [stagedChecksum, setStakeEntropyBit, if_pos hlarge] at hchecksum
            cases hchecksum
          obtain ⟨prevoutStake, nStakeTime, hash, hnote⟩ := noteStake_cases hashProofOfStake st
          refine .inr ⟨hashProofOfStake, modifier.1, modifier.2,
            if kernel.getStakeEntropyBit st.block = 0 then 0 else CBlockIndex.BLOCK_STAKE_ENTROPY,
            checksum, rfl, ?_, rfl, ?_⟩
          · split_ifs <;> rfl
          · unfold writeStake
            rw [hnote]
            dsimp only [setStakeEntropyBit]
            rw [if_neg hbit]
            cases modifier.2 with
            | true => rfl
            | false => simp [setStakeModifier]

theorem peercoinContextualBlockChecks_staged (st : ConnectState) :
    st.Staged (peercoinContextualBlockChecks kernel ancestors fJustCheck st).state ∧
      (peercoinContextualBlockChecks kernel ancestors fJustCheck st).state.block = st.block := by
  rcases @peercoinContextualBlockChecks_cases kernel ancestors st with
    ⟨failure, -, hfail⟩ | ⟨hashProofOfStake, _, _, _, _, -, -, hdry, hwrite⟩
  · rw [hfail]
    exact ⟨.refl st, rfl⟩
  · obtain ⟨prevoutStake, nStakeTime, hash, hnote⟩ := noteStake_cases hashProofOfStake st
    cases fJustCheck with
    | true =>
      rw [hdry]
      exact ⟨.refl st, rfl⟩
    | false =>
      rw [hwrite, hnote]
      exact ⟨⟨rfl, rfl, rfl, rfl, rfl⟩, rfl⟩

theorem connectCheckBlock_staged (st : ConnectState) :
    st.Staged (connectCheckBlock env fJustCheck st).state := by
  unfold connectCheckBlock
  dsimp only
  split
  · exact ⟨rfl, rfl, rfl, content_checkBlock st.block, rfl⟩
  · exact ⟨rfl, rfl, rfl, content_checkBlock st.block, rfl⟩
  · exact ⟨rfl, rfl, rfl, content_checkBlock st.block, rfl⟩

theorem connectPrologue_staged (st : ConnectState) :
    st.Staged (connectPrologue env kernel ancestors fJustCheck st).state := by
  unfold connectPrologue
  dsimp only
  split
  · exact .refl st
  · split
    · exact .refl st
    · refine Outcome.andThen_invariant (P := fun next => st.Staged next) ?_ ?_
      · split_ifs
        · exact (peercoinContextualBlockChecks_staged st).1
        · exact .refl st
      · intro _ _ hnext
        exact hnext.trans (connectCheckBlock_staged _)

/-! ## The recording loop -/

/-- What the recording loop leaves alone. -/
structure ConnectState.Recorded (st st' : ConnectState) : Prop where
  setStakeSeen : st'.setStakeSeen = st.setStakeSeen
  view : st'.view = st.view
  block : st'.block = st.block
  pindex : ∃ nClaims, st'.pindex = { st.pindex with nClaims }

theorem ConnectState.Recorded.refl (st : ConnectState) : st.Recorded st :=
  ⟨rfl, rfl, rfl, st.pindex.nClaims, rfl⟩

theorem ConnectState.Recorded.trans (h : first.Recorded second) (h' : second.Recorded third) :
    first.Recorded third := by
  obtain ⟨nClaims, hpindex⟩ := h.pindex
  obtain ⟨nClaims', hpindex'⟩ := h'.pindex
  refine ⟨h'.setStakeSeen.trans h.setStakeSeen, h'.view.trans h.view, h'.block.trans h.block,
    nClaims', ?_⟩
  rw [hpindex', hpindex]

theorem recordClaim_recorded (st : ConnectState) (payout : CScript × ℤ) :
    st.Recorded (recordClaim env ancestors st payout) := by
  unfold recordClaim
  split
  · exact .refl st
  · exact ⟨rfl, rfl, rfl, _, rfl⟩

theorem foldl_recordClaim_recorded (payouts : List (CScript × ℤ)) (st : ConnectState) :
    st.Recorded (payouts.foldl (recordClaim env ancestors) st) := by
  induction payouts generalizing st with
  | nil => exact .refl st
  | cons payout rest ih => exact (recordClaim_recorded st payout).trans (ih _)

/-- The entry that the recording loop starts from. -/
def sumsEntry (ancestors : IndexChain) (loop : TxLoop) (st : ConnectState) : CBlockIndex :=
  { st.pindex with
    nMint := connectMint loop
    nMoneySupply := connectMoneySupply ancestors loop
    nHeightStake := (ancestors.head?.map CBlockIndex.nHeightStake).getD 0 +
      if st.block.isProofOfStake then 1 else 0
    queuedClaims := loop.queued_claims }

theorem recordBlock_recorded (loop : TxLoop) (st : ConnectState) :
    ({ st with pindex := sumsEntry ancestors loop st } : ConnectState).Recorded
      (recordBlock env ancestors loop st) :=
  foldl_recordClaim_recorded _ _

/-! ## A connected block -/

/-- The call gets as far as the transaction loop. -/
def ReachesLoop (env : Env) (kernel : Kernel) (ancestors : IndexChain) (fJustCheck : Bool)
    (st : ConnectState) : Prop :=
  (connectPrologue env kernel ancestors fJustCheck st).result = .ok () ∧
    (ancestors.head?.map CBlockIndex.hashBlock).getD 0 =
      (connectPrologue env kernel ancestors fJustCheck st).state.view.bestBlock

/-- The state in which the transaction loop starts. -/
def loopStart (env : Env) (kernel : Kernel) (ancestors : IndexChain) (fJustCheck : Bool)
    (st : ConnectState) : ConnectState :=
  setGenesisBest env fJustCheck (connectPrologue env kernel ancestors fJustCheck st).state

/-- The state in which `ConnectBlock` starts to write its records. -/
def loopEnd (env : Env) (ctx : Circumstances) (ancestors : IndexChain)
    (start : ConnectState) : ConnectState :=
  { start with
    g_claims := (connectLoop env ctx ancestors start).state.g_claims
    view := (connectLoop env ctx ancestors start).state.view }

/-- `ConnectBlock` has connected the block: what has passed after the prologue, from the
state `start` on, and what was written into the state `final`. -/
structure Finished (env : Env) (ctx : Circumstances) (ancestors : IndexChain)
    (start final : ConnectState) : Prop where
  loop : (connectLoop env ctx ancestors start).result = .ok ()
  totals : checkConnectTotals env ancestors
    (start.block.getHash env.host.hash256 == env.params.hashGenesisBlock)
    (connectLoop env ctx ancestors start).state = .ok ()
  undo : start.block.getHash env.host.hash256 = env.params.hashGenesisBlock ∨
    ctx.writeUndoData = .ok ()
  final_eq : final =
    let recorded := recordBlock env ancestors
      (connectLoop env ctx ancestors start).state
      (loopEnd env ctx ancestors start)
    { recorded with
      pindex := recorded.pindex.raiseValidity BLOCK_VALID_SCRIPTS
      view := { recorded.view with bestBlock := recorded.pindex.hashBlock } }

/-- What the end of `ConnectBlock` returns and leaves behind. -/
theorem finishBlock_cases (isGenesis : Bool) (loop : TxLoop) (st : ConnectState) :
    (finishBlock env ctx ancestors isGenesis loop st).result =
        (if isGenesis then .ok () else ctx.writeUndoData) ∧
      ∃ nStatus bestBlock, nStatus.failedValid =
          (recordBlock env ancestors loop st).pindex.nStatus.failedValid ∧
        (finishBlock env ctx ancestors isGenesis loop st).state =
          { recordBlock env ancestors loop st with
            pindex := { (recordBlock env ancestors loop st).pindex with nStatus }
            view := { (recordBlock env ancestors loop st).view with bestBlock } } := by
  unfold finishBlock
  dsimp only
  split
  · next hundo => exact ⟨hundo.symm, _, _, rfl, rfl⟩
  · next hundo =>
    obtain ⟨nStatus, hraise, hfailed⟩ :=
      (recordBlock env ancestors loop st).pindex.raiseValidity_cases BLOCK_VALID_SCRIPTS
    rw [hraise]
    exact ⟨hundo.symm, nStatus, _, hfailed, rfl⟩

/-- The transaction loop and the tests after it pass. -/
def LoopPasses (env : Env) (ctx : Circumstances) (ancestors : IndexChain)
    (start : ConnectState) : Prop :=
  (connectLoop env ctx ancestors start).result = .ok () ∧
    checkConnectTotals env ancestors
      (start.block.getHash env.host.hash256 == env.params.hashGenesisBlock)
      (connectLoop env ctx ancestors start).state = .ok ()

/-- If they do not, the call ends with what the loop has done. -/
theorem connectTransactions_cases (start : ConnectState) : (¬ LoopPasses env ctx ancestors start ∧
      ∃ failure, connectTransactions env ctx ancestors fJustCheck start =
        .fail (loopEnd env ctx ancestors start) failure) ∨
    (LoopPasses env ctx ancestors start ∧
      connectTransactions env ctx ancestors fJustCheck start =
        if fJustCheck then .pass (loopEnd env ctx ancestors start)
        else finishBlock env ctx ancestors
          (start.block.getHash env.host.hash256 == env.params.hashGenesisBlock)
          (connectLoop env ctx ancestors start).state
          (loopEnd env ctx ancestors start)) := by
  unfold connectTransactions LoopPasses
  dsimp only
  cases hloop : (connectLoop env ctx ancestors start).result with
  | error failure => exact .inl ⟨by simp, failure, rfl⟩
  | ok value =>
    cases htotals : checkConnectTotals env ancestors
        (start.block.getHash env.host.hash256 == env.params.hashGenesisBlock)
        (connectLoop env ctx ancestors start).state with
    | error failure => exact .inl ⟨by simp, failure, rfl⟩
    | ok value => exact .inr ⟨⟨rfl, rfl⟩, rfl⟩

theorem finished_of_connectTransactions
    (hok : (connectTransactions env ctx ancestors false st).result = .ok ()) :
    Finished env ctx ancestors st
      (connectTransactions env ctx ancestors false st).state := by
  rcases @connectTransactions_cases env ctx ancestors false st with
    ⟨-, failure, hfail⟩ | ⟨hpassed, hfinish⟩
  · rw [hfail] at hok
    cases hok
  · rw [hfinish, if_neg Bool.false_ne_true] at hok ⊢
    have hundo := (finishBlock_cases _ _ _).1.symm.trans hok
    refine ⟨hpassed.1, hpassed.2, ?_, ?_⟩
    · split_ifs at hundo with hgenesis
      · exact .inl (beq_iff_eq.mp hgenesis)
      · exact .inr hundo
    · unfold finishBlock
      rw [hundo]
      rfl

variable {final : ConnectState}

/-- The entry of a connected block: its sums, its records and a raised validity. -/
theorem Finished.pindex_eq (h : Finished env ctx ancestors st final) :
    ∃ nClaims nStatus, final.pindex = { sumsEntry ancestors
      (connectLoop env ctx ancestors st).state st with nClaims, nStatus } := by
  obtain ⟨nClaims, hentry⟩ := (@recordBlock_recorded env ancestors
    (connectLoop env ctx ancestors st).state
    (loopEnd env ctx ancestors st)).pindex
  obtain ⟨nStatus, hstatus, -⟩ := (recordBlock env ancestors (connectLoop env ctx ancestors
    st).state (loopEnd env ctx ancestors st)).pindex.raiseValidity_cases BLOCK_VALID_SCRIPTS
  refine ⟨nClaims, nStatus, ?_⟩
  rw [h.final_eq]
  dsimp only
  rw [hstatus, hentry]
  rfl

theorem Finished.view_eq (h : Finished env ctx ancestors st final) :
    final.view = { (connectLoop env ctx ancestors st).state.view with
      bestBlock := st.pindex.hashBlock } := by
  have hrecorded := @recordBlock_recorded env ancestors
    (connectLoop env ctx ancestors st).state (loopEnd env ctx ancestors st)
  obtain ⟨nClaims, hentry⟩ := hrecorded.pindex
  rw [h.final_eq]
  dsimp only
  rw [hrecorded.view, hentry]
  rfl

/-! ## Before the loop -/

theorem setGenesisBest_eq (st : ConnectState) : setGenesisBest env fJustCheck st =
    { st with view := { st.view with
        bestBlock := (setGenesisBest env fJustCheck st).view.bestBlock } } := by
  unfold setGenesisBest
  split_ifs <;> rfl

theorem view_loopStart (st : ConnectState) :
    (loopStart env kernel ancestors false st).view.coins = st.view.coins := by
  have hcoins :=
    congrArg CCoinsView.coins (@connectPrologue_staged env kernel ancestors false st).view
  rw [loopStart, setGenesisBest_eq]
  exact hcoins

theorem content_loopStart (st : ConnectState) :
    (loopStart env kernel ancestors fJustCheck st).block.content = st.block.content := by
  rw [loopStart, setGenesisBest_eq]
  exact (@connectPrologue_staged env kernel ancestors fJustCheck st).content

theorem unstaked_loopStart (st : ConnectState) :
    (loopStart env kernel ancestors false st).pindex.unstaked = st.pindex.unstaked := by
  rw [loopStart, setGenesisBest_eq]
  exact (@connectPrologue_staged env kernel ancestors false st).pindex

theorem getHash_loopStart (st : ConnectState) :
    (loopStart env kernel ancestors fJustCheck st).block.getHash env.host.hash256 =
      st.block.getHash env.host.hash256 :=
  congrArg (CBlockHeader.getHash env.host.hash256)
    (CBlock.header_eq_of_content_eq (content_loopStart st))

/-- `ConnectBlock` asserts that the entry is the one of the block. -/
theorem hashBlock_of_prologue
    (hok : (connectPrologue env kernel ancestors false st).result = .ok ()) :
    st.pindex.hashBlock = st.block.getHash env.host.hash256 := by
  by_contra hne
  unfold connectPrologue at hok
  rw [if_pos hne] at hok
  cases hok

/-- The prologue calls `CheckBlock` on the object as it is. -/
theorem checkBlock_of_prologue
    (hok : (connectPrologue env kernel ancestors false st).result = .ok ()) :
    (checkBlock env true true true st.block).result = .ok () := by
  have hcheck (next : ConnectState) (hblock : next.block = st.block)
      (hnext : (connectCheckBlock env false next).result = .ok ()) :
      (checkBlock env true true true st.block).result = .ok () := by
    unfold connectCheckBlock at hnext
    rw [hblock] at hnext
    dsimp only at hnext
    split at hnext
    · assumption
    · cases hnext
    · cases hnext
  unfold connectPrologue at hok
  dsimp only at hok
  split at hok
  · cases hok
  · split at hok
    · cases hok
    · obtain ⟨⟨⟩, -, hnext⟩ := Outcome.andThen_eq_ok_iff.mp hok
      refine hcheck _ ?_ hnext
      split_ifs
      · exact (peercoinContextualBlockChecks_staged st).2
      · rfl

/-- The call stops before its transactions, or it runs them. -/
theorem connectBlock_cases (st : ConnectState) : (¬ ReachesLoop env kernel ancestors fJustCheck st ∧
      ∃ failure, connectBlock env kernel ctx ancestors fJustCheck st =
        .fail (connectPrologue env kernel ancestors fJustCheck st).state failure) ∨
    (ReachesLoop env kernel ancestors fJustCheck st ∧
      connectBlock env kernel ctx ancestors fJustCheck st =
        connectTransactions env ctx ancestors fJustCheck
          (loopStart env kernel ancestors fJustCheck st)) := by
  unfold connectBlock ReachesLoop
  cases hprologue : (connectPrologue env kernel ancestors fJustCheck st).result with
  | error failure =>
    rw [Outcome.andThen_of_error hprologue]
    exact .inl ⟨by simp, failure, rfl⟩
  | ok value =>
    rw [Outcome.andThen_of_ok hprologue]
    split_ifs with hbest
    · exact .inl ⟨fun hreaches => hbest hreaches.2, .aborted, rfl⟩
    · exact .inr ⟨⟨rfl, not_not.mp hbest⟩, rfl⟩

/-- What has happened when `ConnectBlock` returns true. -/
theorem connectBlock_of_ok
    (hok : (connectBlock env kernel ctx ancestors false st).result = .ok ()) :
    (connectPrologue env kernel ancestors false st).result = .ok () ∧
      (ancestors.head?.map hashBlock).getD 0 = st.view.bestBlock ∧
      Finished env ctx ancestors (loopStart env kernel ancestors false st)
        (connectBlock env kernel ctx ancestors false st).state := by
  rcases @connectBlock_cases env kernel ctx ancestors false st with
    ⟨-, failure, hfail⟩ | ⟨⟨hprologue, hbest⟩, hrun⟩
  · rw [hfail] at hok
    cases hok
  · rw [hrun] at hok ⊢
    refine ⟨hprologue, ?_, finished_of_connectTransactions hok⟩
    rw [hbest, (connectPrologue_staged st).view]

end Patchcoin
