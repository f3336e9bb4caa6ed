import Patchcoin.Chain.Recorded

/-!
# What connecting a block does to the claims

Whatever becomes of a block, `ConnectBlock` changes the pool in two ways only.
The transaction loop merges claims of the block into it, one at a time and each
with a total of zero (`connectLoop_pool_invariant`).  Once all tests have passed,
the recording loop writes the payouts of the block: into the entry of the block,
and as new totals into the claims and their copies in the index
(`recordBlock_of_paid`, `recordBlock_of_unpaid`).  Writing the undo data can still
fail after that.
-/

namespace Patchcoin

open Std.ExtTreeMap Claim

variable {env : Env} {kernel : Kernel} {ctx : Circumstances} {ancestors : IndexChain}
  {st : ConnectState}

/-! ## How far the call gets -/

/-- The call gets as far as writing its records. -/
def RecordsBlock (env : Env) (kernel : Kernel) (ctx : Circumstances)
    (ancestors : IndexChain) (st : ConnectState) : Prop :=
  let start := loopStart env kernel ancestors false st
  let loop := connectLoop env ctx ancestors start
  ReachesLoop env kernel ancestors false st ∧ loop.result = .ok () ∧
    checkConnectTotals env ancestors
      (start.block.getHash env.host.hash256 == env.params.hashGenesisBlock) loop.state = .ok ()

/-- The states agree in what is stored about claims. -/
structure ConnectState.SameClaims (st st' : ConnectState) : Prop where
  g_claims : st'.g_claims = st.g_claims
  g_claimindex : st'.g_claimindex = st.g_claimindex
  nClaims : st'.pindex.nClaims = st.pindex.nClaims

theorem sameClaims_prologue (st : ConnectState) :
    st.SameClaims (connectPrologue env kernel ancestors false st).state := by
  have hstaged := @connectPrologue_staged env kernel ancestors false st
  exact ⟨hstaged.g_claims, hstaged.g_claimindex,
    (CBlockIndex.fields_of_unstaked_eq hstaged.pindex).2.2⟩

theorem sameClaims_loopStart (st : ConnectState) :
    st.SameClaims (loopStart env kernel ancestors false st) := by
  rw [loopStart, setGenesisBest_eq]
  obtain ⟨hpool, hindex, hclaims⟩ := @sameClaims_prologue env kernel ancestors st
  exact ⟨hpool, hindex, hclaims⟩

/-- A call that does not get to the records has changed the pool in the transaction loop at
most. -/
theorem connectBlock_of_not_recordsBlock {final : ConnectState}
    (h : ¬ RecordsBlock env kernel ctx ancestors st)
    (hfinal : (connectBlock env kernel ctx ancestors false st).state = final) :
    (final.g_claims = st.g_claims ∨ final.g_claims =
        (connectLoop env ctx ancestors (loopStart env kernel ancestors false st)).state.g_claims) ∧
      final.g_claimindex = st.g_claimindex ∧ final.pindex.nClaims = st.pindex.nClaims := by
  subst hfinal
  rcases @connectBlock_cases env kernel ctx ancestors false st with
    ⟨-, failure, hfail⟩ | ⟨hreaches, hrun⟩
  · obtain ⟨hpool, hindex, hclaims⟩ := @sameClaims_prologue env kernel ancestors st
    rw [hfail]
    exact ⟨.inl hpool, hindex, hclaims⟩
  · rcases @connectTransactions_cases env ctx ancestors false
      (loopStart env kernel ancestors false st) with ⟨-, failure, hfail⟩ | ⟨hpassed, -⟩
    · obtain ⟨-, hindex, hclaims⟩ := @sameClaims_loopStart env kernel ancestors st
      rw [hrun, hfail]
      exact ⟨.inr rfl, hindex, hclaims⟩
    · exact absurd ⟨hreaches, hpassed⟩ h

/-- A call that gets to the records leaves what the recording loop has written. -/
theorem connectBlock_of_recordsBlock {loop : TxLoop} (h : RecordsBlock env kernel ctx ancestors st)
    (hloop : (connectLoop env ctx ancestors (loopStart env kernel ancestors false st)).state =
      loop) :
    ∃ start : ConnectState,
      ((loop.claims.toList.map Prod.snd).foldl (recordClaim env ancestors) start).SameClaims
        (connectBlock env kernel ctx ancestors false st).state ∧ start.g_claims = loop.g_claims ∧
      start.g_claimindex = st.g_claimindex ∧ start.pindex.nClaims = st.pindex.nClaims ∧
      start.pindex.nTime = st.pindex.nTime := by
  subst hloop
  obtain ⟨hreaches, hpassed⟩ := h
  rcases @connectBlock_cases env kernel ctx ancestors false st with
    ⟨hnot, -⟩ | ⟨-, hrun⟩
  · exact absurd hreaches hnot
  · rcases @connectTransactions_cases env ctx ancestors false
      (loopStart env kernel ancestors false st) with ⟨hnot, -⟩ | ⟨-, hfinish⟩
    · exact absurd hpassed hnot
    · obtain ⟨-, _, _, -, hstate⟩ := finishBlock_cases _ _ _
      obtain ⟨-, hindex, hclaims⟩ := @sameClaims_loopStart env kernel ancestors st
      rw [hrun, hfinish, if_neg Bool.false_ne_true, hstate]
      exact ⟨_, ⟨rfl, rfl, rfl⟩, rfl, hindex, hclaims,
        (CBlockIndex.fields_of_unstaked_eq (unstaked_loopStart st)).2.1⟩

/-! ## The transaction loop -/

section Pool

theorem insertBlockClaims_pool_invariant {P : ClaimPool → Prop} {nTimeTx : UInt32}
    {vClaim : List CClaim} {pool : ClaimPool}
    (hmerge : ∀ {pool : ClaimPool}, ∀ claim ∈ vClaim, (checkedClaim env claim).2 = .OK → P pool →
      P (pool.merge (checkedClaim env claim).1))
    (h : P pool) : P (insertBlockClaims env nTimeTx vClaim pool).state := by
  refine Outcome.forEach_invariant (P := P) ?_ h
  intro claim hmem pool hpool
  rw [insertBlockClaim_eq]
  split_ifs with hvalid
  · exact hmerge claim hmem hvalid hpool
  · exact hpool

variable {P : ClaimPool → Prop}
  (himage : ∀ {pool pool' : ClaimPool}, P pool →
    pool'.image Claim.forgetElectrum = pool.image Claim.forgetElectrum → P pool')

include himage

theorem checkClaims_pool_invariant {view : CCoinsView} {tx : CTransaction} {nTimeTx : UInt32}
    {vClaim : List CClaim} {claims : ClaimState}
    (hmerge : ∀ {pool : ClaimPool}, ∀ claim ∈ vClaim, (checkedClaim env claim).2 = .OK → P pool →
      P (pool.merge (checkedClaim env claim).1))
    (h : P claims.g_claims) :
    P (checkClaims env ancestors view tx nTimeTx vClaim claims).state.g_claims := by
  have hinsert := @insertBlockClaims_pool_invariant env P nTimeTx vClaim _ hmerge h
  by_cases hne : vClaim = []
  · subst hne
    exact h
  · rw [checkClaims_of_ne_nil hne]
    cases checkClaimGuards env view tx nTimeTx vClaim with
    | error failure => exact h
    | ok value =>
      cases hresult : (insertBlockClaims env nTimeTx vClaim claims.g_claims).result with
      | error failure => exact hinsert
      | ok value =>
        rw [insertBlockClaims_state_of_ok hresult] at hinsert
        exact himage hinsert (image_checkClaimOutputs forgetElectrum_isValid _ _)

/-- A property of the pool that is blind to the cached verdicts of the lookup service and
that merging a valid claim of the block keeps holds after the transaction loop. -/
theorem connectLoop_pool_invariant
    (hmerge : ∀ {pool : ClaimPool}, ∀ claim ∈ st.block.vClaim, (checkedClaim env claim).2 = .OK →
      P pool → P (pool.merge (checkedClaim env claim).1))
    (h : P st.g_claims) : P (connectLoop env ctx ancestors st).state.g_claims := by
  exact connectTxs_claims (P := fun claims => P claims.g_claims)
    (fun _ _ _ hclaims => checkClaims_pool_invariant himage hmerge hclaims) h

/-- The rule for a whole call: the recording loop has to keep the property as well. -/
theorem connectBlock_pool_invariant
    (hmerge : ∀ {pool : ClaimPool} (claim : CClaim), (checkedClaim env claim).2 = .OK → P pool →
      P (pool.merge (checkedClaim env claim).1))
    (hrecord : ∀ {st : ConnectState} (payout : CScript × ℤ), P st.g_claims →
      P (recordClaim env ancestors st payout).g_claims)
    (h : P st.g_claims) : P (connectBlock env kernel ctx ancestors false st).state.g_claims := by
  have hstart : P (loopStart env kernel ancestors false st).g_claims := by
    rw [(sameClaims_loopStart st).g_claims]
    exact h
  have hloop := @connectLoop_pool_invariant env ctx ancestors
    (loopStart env kernel ancestors false st) P himage (fun claim _ => hmerge claim) hstart
  by_cases hrecords : RecordsBlock env kernel ctx ancestors st
  · obtain ⟨start, hsame, hstart, -⟩ := connectBlock_of_recordsBlock hrecords rfl
    rw [← hstart] at hloop
    rw [hsame.g_claims]
    exact List.foldlRecOn (motive := fun st : ConnectState => P st.g_claims) _ _ hloop
      fun _ hst payout _ => hrecord payout hst
  · rcases (connectBlock_of_not_recordsBlock hrecords rfl).1 with hsame | hlooped
    · rw [hsame]
      exact h
    · rw [hlooped]
      exact hloop

end Pool

/-- How the pool grows in the transaction loop: the claims in it stay, and the others come
from the block. -/
structure ClaimPool.Grown (env : Env) (vClaim : List CClaim) (pool pool' : ClaimPool) : Prop where
  kept : ∀ (source : CScript) (claim : Claim), pool[source]? = some claim →
    ∃ claim', pool'[source]? = some claim' ∧ claim'.forgetElectrum = claim.forgetElectrum
  fresh : ∀ (source : CScript) (claim' : Claim), pool'[source]? = some claim' →
    pool[source]? = none → ∃ claim ∈ vClaim, (checkedClaim env claim).2 = .OK ∧
      claim'.forgetElectrum = (checkedClaim env claim).1.forgetElectrum

theorem ClaimPool.Grown.refl (vClaim : List CClaim) (pool : ClaimPool) :
    Grown env vClaim pool pool := by
  refine ⟨fun _ claim hentry => ⟨claim, hentry, rfl⟩, fun _ _ hentry hnone => ?_⟩
  rw [hentry] at hnone
  cases hnone

theorem connectLoop_grown (st : ConnectState) : ClaimPool.Grown env st.block.vClaim st.g_claims
    (connectLoop env ctx ancestors st).state.g_claims := by
  refine connectLoop_pool_invariant ?_ ?_ (.refl _ _)
  · intro pool pool' hgrown himage
    have hparts := ClaimPool.image_eq_iff.mp himage
    constructor
    · intro source claim hentry
      obtain ⟨claim', hentry', hsame⟩ := hgrown.kept source claim hentry
      have hpart := hparts source
      rw [hentry', Option.map_some] at hpart
      obtain ⟨claim'', hentry'', hsame'⟩ := Option.map_eq_some_iff.mp hpart
      exact ⟨claim'', hentry'', hsame'.trans hsame⟩
    · intro source claim' hentry' hnone
      have hpart := hparts source
      rw [hentry', Option.map_some] at hpart
      obtain ⟨before, hbefore, hsame⟩ := Option.map_eq_some_iff.mp hpart.symm
      obtain ⟨claim, hmem, hvalid, hclaim⟩ := hgrown.fresh source before hbefore hnone
      exact ⟨claim, hmem, hvalid, hsame.symm.trans hclaim⟩
  · intro pool claim hmem hvalid hgrown
    constructor
    · intro source old hentry
      obtain ⟨claim', hentry', hsame⟩ := hgrown.kept source old hentry
      exact ⟨claim', ClaimPool.getElem?_merge_of_some hentry' _, hsame⟩
    · intro source claim' hentry' hnone
      rcases ClaimPool.getElem?_merge_cases hentry' with hbefore | rfl
      · exact hgrown.fresh source claim' hbefore hnone
      · exact ⟨claim, hmem, hvalid, rfl⟩

/-- A claim that comes from a block has not been seen and has received nothing. -/
theorem checkedClaim_fresh (claim : CClaim) :
    (checkedClaim env claim).1.nTime = 0 ∧ (checkedClaim env claim).1.m_seen = false ∧
      (checkedClaim env claim).1.nTotalReceived = 0 := by
  have hclassify (claim : Claim) : (claim.classify env).nTime = claim.nTime ∧
      (claim.classify env).m_seen = claim.m_seen ∧
      (claim.classify env).nTotalReceived = claim.nTotalReceived := by
    unfold classify
    split
    · exact ⟨rfl, rfl, rfl⟩
    · split
      · exact ⟨rfl, rfl, rfl⟩
      · exact ⟨rfl, rfl, rfl⟩
  unfold checkedClaim
  rw [isValid_fst_eq]
  unfold ofCClaim init
  split_ifs
  · exact ⟨rfl, rfl, rfl⟩
  · exact ⟨rfl, rfl, rfl⟩
  · exact hclassify _

/-! ## The recording loop -/

/-- What the recording loop makes of a claim. -/
def Claim.recorded (claim : Claim) (nTime : UInt32) (total : ℕ) : Claim :=
  { claim with
    m_seen := true
    nTime := if claim.nTime = 0 then nTime.toNat else claim.nTime
    nTotalReceived := total }

/-- `GetTotalReceived` counts the payouts of the claim. -/
def Claim.Counts (env : Env) (claim : Claim) : Prop :=
  claim.m_is_btc = false → 0 < claim.getEligible env

theorem recordClaim_eq {payout : CScript × ℤ} {claim : Claim}
    (hentry : st.g_claims[payout.1]? = some claim) (hsource : claim.getSource = payout.1)
    (hcounts : claim.Counts env) :
    let amount := (payout.2 % 2 ^ 64).toNat
    let recorded := claim.recorded st.pindex.nTime (amount + claimedTotal ancestors payout.1)
    recordClaim env ancestors st payout = { st with
      g_claims := st.g_claims.insert payout.1 recorded
      g_claimindex := st.g_claimindex.insert payout.1 recorded.toRecord
      pindex := { st.pindex with nClaims := st.pindex.nClaims.insert payout.1 amount } } := by
  let noted : Claim := { claim with
    m_seen := true
    nTime := if claim.nTime = 0 then st.pindex.nTime.toNat else claim.nTime }
  let entry : CBlockIndex := { st.pindex with
    nClaims := st.pindex.nClaims.insert claim.getSource (payout.2 % 2 ^ 64).toNat }
  let written (total : ℤ) (source : CScript) : ConnectState := { st with
      g_claims := st.g_claims.insert payout.1 { noted with nTotalReceived := total }
      g_claimindex := st.g_claimindex.insert source
        (toRecord { noted with nTotalReceived := total })
      pindex := { st.pindex with
        nClaims := st.pindex.nClaims.insert source (payout.2 % 2 ^ 64).toNat } }
  have hwritten : recordClaim env ancestors st payout =
      written (noted.getTotalReceived env (entry :: ancestors) 0 0).2.1 claim.getSource := by
    unfold recordClaim
    rw [hentry]
    rfl
  -- the walk starts at the entry with the new record
  have htotal : (noted.getTotalReceived env (entry :: ancestors) 0 0).2.1 =
      ((payout.2 % 2 ^ 64).toNat + claimedTotal ancestors payout.1 : ℕ) := by
    have hcounted : ¬ (noted.m_is_btc = false ∧ noted.getEligible env ≤ 0) := by
      rintro ⟨hfalse, hle⟩
      have hpos : 0 < noted.getEligible env := hcounts hfalse
      omega
    have hnoted : noted.getSource = claim.getSource := rfl
    rw [getTotalReceived_eq, if_neg hcounted, hnoted, claimedTotal_cons]
    rw [getD_insert_self, hsource]
  rw [hwritten, htotal, hsource]
  rfl

variable {payouts : List (CScript × ℤ)} {source : CScript}

/-- The claims that are paid are in the pool under their source, and are counted. -/
def Chargeable (env : Env) (pool : ClaimPool) (payouts : List (CScript × ℤ)) : Prop :=
  ∀ payout ∈ payouts, ∃ claim : Claim, pool[payout.1]? = some claim ∧
    claim.getSource = payout.1 ∧ claim.Counts env

theorem Chargeable.recordClaim {payout : CScript × ℤ} {rest : List (CScript × ℤ)}
    (h : Chargeable env st.g_claims (payout :: rest)) :
    Chargeable env (recordClaim env ancestors st payout).g_claims rest := by
  obtain ⟨claim, hentry, hsource, hcounts⟩ := h payout (.head _)
  rw [recordClaim_eq hentry hsource hcounts]
  intro other hother
  rw [getElem?_insert]
  split_ifs with heq
  · have hkey : payout.1 = other.1 := Std.LawfulEqCmp.eq_of_compare heq
    exact ⟨_, rfl, hkey ▸ hsource, hcounts⟩
  · exact h other (.tail _ hother)

theorem foldl_recordClaim_of_notMem (h : Chargeable env st.g_claims payouts)
    (hnot : source ∉ payouts.map Prod.fst) :
    let final := payouts.foldl (recordClaim env ancestors) st
    final.g_claims[source]? = st.g_claims[source]? ∧
      final.g_claimindex[source]? = st.g_claimindex[source]? ∧
      final.pindex.nClaims[source]? = st.pindex.nClaims[source]? := by
  induction payouts generalizing st with
  | nil => exact ⟨rfl, rfl, rfl⟩
  | cons payout rest ih =>
    obtain ⟨claim, hentry, hsource, hcounts⟩ := h payout (.head _)
    rw [List.map_cons, List.mem_cons, not_or] at hnot
    have hne : ¬ compare payout.1 source = .eq := fun heq =>
      hnot.1 (Std.LawfulEqCmp.eq_of_compare heq).symm
    obtain ⟨hpool, hindex, hclaims⟩ := ih h.recordClaim hnot.2
    dsimp only
    rw [List.foldl_cons, hpool, hindex, hclaims, recordClaim_eq hentry hsource hcounts]
    rw [getElem?_insert, getElem?_insert,
      getElem?_insert, if_neg hne, if_neg hne, if_neg hne]
    exact ⟨rfl, rfl, rfl⟩

theorem foldl_recordClaim_of_mem (h : Chargeable env st.g_claims payouts)
    (hdistinct : (payouts.map Prod.fst).Nodup) {value : ℤ} (hmem : (source, value) ∈ payouts)
    {claim : Claim} (hentry : st.g_claims[source]? = some claim) :
    let final := payouts.foldl (recordClaim env ancestors) st
    let recorded := claim.recorded st.pindex.nTime
      ((value % 2 ^ 64).toNat + claimedTotal ancestors source)
    final.g_claims[source]? = some recorded ∧
      final.g_claimindex[source]? = some recorded.toRecord ∧
      final.pindex.nClaims[source]? = some (value % 2 ^ 64).toNat := by
  induction payouts generalizing st with
  | nil => exact absurd hmem List.not_mem_nil
  | cons payout rest ih =>
    obtain ⟨first, hfirst, hsource, hcounts⟩ := h payout (.head _)
    rw [List.map_cons, List.nodup_cons] at hdistinct
    have hstep := @recordClaim_eq env ancestors st payout first hfirst hsource hcounts
    dsimp only at hstep ⊢
    rw [List.foldl_cons]
    rcases List.mem_cons.mp hmem with rfl | hrest
    · -- no later payout has this source
      obtain ⟨hpool, hindex, hclaims⟩ :=
        @foldl_recordClaim_of_notMem env ancestors _ rest source h.recordClaim hdistinct.1
      obtain rfl : claim = first := Option.some.inj (hentry.symm.trans hfirst)
      rw [hpool, hindex, hclaims, hstep]
      rw [getElem?_insert_self, getElem?_insert_self,
        getElem?_insert_self]
      exact ⟨rfl, rfl, rfl⟩
    · have hne : ¬ compare payout.1 source = .eq := fun heq =>
        hdistinct.1 (Std.LawfulEqCmp.eq_of_compare heq ▸ List.mem_map_of_mem hrest)
      have hkept : (recordClaim env ancestors st payout).g_claims[source]? = some claim := by
        rw [hstep]
        rw [getElem?_insert, if_neg hne, hentry]
      have htime : (recordClaim env ancestors st payout).pindex.nTime = st.pindex.nTime := by
        rw [hstep]
      rw [← htime]
      exact ih h.recordClaim hdistinct.2 hrest hkept

/-! ## The whole call -/

/-- The call records a payout of the amount for the source. -/
def PaysClaim (env : Env) (kernel : Kernel) (ctx : Circumstances)
    (ancestors : IndexChain) (st : ConnectState) (source : CScript) (value : ℤ) : Prop :=
  RecordsBlock env kernel ctx ancestors st ∧
    (connectLoop env ctx ancestors
      (loopStart env kernel ancestors false st)).state.claims[source]? = some (source, value)

theorem PaidLoop.chargeable {loop : TxLoop} (h : PaidLoop env ancestors loop) :
    Chargeable env loop.g_claims (loop.claims.toList.map Prod.snd) := by
  intro payout hmem
  obtain ⟨⟨source, key, value⟩, hentry, rfl⟩ := List.mem_map.mp hmem
  have hpaid := mem_toList_iff_getElem?_eq_some.mp hentry
  obtain ⟨rfl, claim, hfrom⟩ := h.paid.paid source key value hpaid
  obtain ⟨nOutputs, count, hamounts⟩ := hfrom.amounts
  exact ⟨claim, hfrom.entry, hfrom.source_eq,
    fun hbtc => ((checkClaimAmounts_eq_ok_iff.mp hamounts).2.2 hbtc).1⟩

section Call

variable (hpool : st.g_claims.Sound env)

include hpool

theorem paidLoop_of_recordsBlock (h : RecordsBlock env kernel ctx ancestors st) :
    PaidLoop env ancestors
      (connectLoop env ctx ancestors (loopStart env kernel ancestors false st)).state := by
  have hsound : (loopStart env kernel ancestors false st).g_claims.Sound env := by
    rw [(sameClaims_loopStart st).g_claims]
    exact hpool
  exact (paidLoop_of_ok hsound h.2.1).1

/-- A source that the block pays: the claim, its copy and the entry of the block. -/
theorem connectBlock_of_paysClaim {value : ℤ}
    (h : PaysClaim env kernel ctx ancestors st source value) : 0 ≤ value ∧ ∃ claim : Claim,
      (connectLoop env ctx ancestors
        (loopStart env kernel ancestors false st)).state.g_claims[source]? = some claim ∧
      let recorded := claim.recorded st.pindex.nTime
        (value.toNat + claimedTotal ancestors source)
      let final := (connectBlock env kernel ctx ancestors false st).state
      final.g_claims[source]? = some recorded ∧
        final.g_claimindex[source]? = some recorded.toRecord ∧
        final.pindex.nClaims[source]? = some value.toNat := by
  obtain ⟨hrecords, hpaid⟩ := h
  have hloop := paidLoop_of_recordsBlock hpool hrecords
  obtain ⟨-, claim, hfrom⟩ := hloop.paid.paid source source value hpaid
  have hrange := (moneyRange_iff _).mp (hloop.range source (source, value) hpaid)
  have hamount : value % 2 ^ 64 = value := by
    apply Int.emod_eq_of_lt hrange.1
    have hmax : MAX_MONEY < 2 ^ 64 := by decide
    omega
  have hmem : (source, value) ∈ (connectLoop env ctx ancestors
      (loopStart env kernel ancestors false st)).state.claims.toList.map Prod.snd :=
    List.mem_map.mpr ⟨(source, source, value),
      mem_toList_iff_getElem?_eq_some.mpr hpaid, rfl⟩
  obtain ⟨start, ⟨hclaims, hindex, hentry⟩, hstart, -, -, htime⟩ :=
    connectBlock_of_recordsBlock hrecords rfl
  refine ⟨hrange.1, claim, hfrom.entry, ?_⟩
  dsimp only
  rw [hclaims, hindex, hentry, ← htime]
  have hfold := @foldl_recordClaim_of_mem env ancestors start _ source
    (hstart ▸ hloop.chargeable) hloop.payouts_nodup value hmem claim (hstart ▸ hfrom.entry)
  rw [hamount] at hfold
  exact hfold

/-- A source that the block does not pay: the index and the entry of the block keep what
they held, and the pool grows at most. -/
theorem connectBlock_of_not_paysClaim
    (h : ∀ value, ¬ PaysClaim env kernel ctx ancestors st source value) :
    let final := (connectBlock env kernel ctx ancestors false st).state
    (∃ vClaim pool, ClaimPool.Grown env vClaim st.g_claims pool ∧
      final.g_claims[source]? = pool[source]?) ∧
      final.g_claimindex[source]? = st.g_claimindex[source]? ∧
      final.pindex.nClaims[source]? = st.pindex.nClaims[source]? := by
  dsimp only
  have hgrown := @connectLoop_grown env ctx ancestors (loopStart env kernel ancestors false st)
  rw [(sameClaims_loopStart st).g_claims] at hgrown
  by_cases hrecords : RecordsBlock env kernel ctx ancestors st
  · have hloop := paidLoop_of_recordsBlock hpool hrecords
    have hnot : source ∉ ((connectLoop env ctx ancestors
        (loopStart env kernel ancestors false st)).state.claims.toList.map
          Prod.snd).map Prod.fst := by
      rw [hloop.payouts_map_fst]
      intro hmem
      obtain ⟨⟨other, key, value⟩, hentry, rfl⟩ := List.mem_map.mp hmem
      have hpaid := mem_toList_iff_getElem?_eq_some.mp hentry
      obtain ⟨rfl, -⟩ := hloop.paid.paid other key value hpaid
      exact h value ⟨hrecords, hpaid⟩
    obtain ⟨start, ⟨hclaims, hindex, hentry⟩, hstart, hindexStart, hentryStart, -⟩ :=
      connectBlock_of_recordsBlock hrecords rfl
    obtain ⟨hfoldClaims, hfoldIndex, hfoldEntry⟩ := @foldl_recordClaim_of_notMem env ancestors
      start _ source (hstart ▸ hloop.chargeable) hnot
    rw [hclaims, hindex, hentry, ← hindexStart, ← hentryStart]
    exact ⟨⟨_, _, hgrown, hstart ▸ hfoldClaims⟩, hfoldIndex, hfoldEntry⟩
  · obtain ⟨hpools, hindex, hentry⟩ := connectBlock_of_not_recordsBlock hrecords rfl
    rw [hindex, hentry]
    refine ⟨?_, rfl, rfl⟩
    rcases hpools with hsame | hlooped
    · exact ⟨[], _, .refl [] st.g_claims, by rw [hsame]⟩
    · exact ⟨_, _, hgrown, by rw [hlooped]⟩

end Call

end Patchcoin
