import Patchcoin.Chain.DisconnectBlock

/-!
# The shape of a block with claims

A block that carries claims is meant to be a coinbase and one coinstake that spends coins
of the genesis key.  Nothing tests this directly.  `CheckClaims` runs on every transaction
but the coinbase, and asks of each that it spends a coin of the genesis key
(`checkClaimGuards_eq_ok_iff`); a transaction that does so has to be a coinstake, and
`CheckBlock` allows no coinstake but the second transaction.

The two tests of the claim period do not fit together.  Claims are refused after its last
second, transactions of the genesis key other than coinstakes before it.  In the last
second both are allowed, and the block may have further transactions
(`claimBlockShape_iff`).  These may have a single output: the room for the claims is a
difference of `size_t`.
-/

namespace Patchcoin

variable {env : Env} {kernel : Kernel} {ctx : Circumstances} {ancestors : IndexChain}
  {st : ConnectState} {block : CBlock} {view : CCoinsView} {tx : CTransaction} {nTimeTx : UInt32}
  {vClaim : List CClaim}

/-! ## What the guards test -/

/-- The seconds from the genesis block to a time. -/
def sinceGenesis (env : Env) (nTimeTx : UInt32) : ℤ := (nTimeTx.toNat : ℤ) - env.params.genesisNTime

/-- The input loop lets coins of the genesis key pass in a coinstake, and from the last
second of the lock on. -/
theorem checkGenesisInputs_eq_ok_iff (vin : List CTxIn) :
    checkGenesisInputs env view tx nTimeTx vin = .ok () ↔
      ∀ input ∈ vin,
        (view.accessCoin input.prevout).out.scriptPubKey = env.params.genesisPubKey →
          tx.isCoinStake = true ∨ env.params.nStakeGenesisLockTime ≤ sinceGenesis env nTimeTx := by
  have hkey (scriptPubKey : CScript) : checkGenesisKeyInput env scriptPubKey tx nTimeTx = .ok () ↔
      (scriptPubKey = env.params.genesisPubKey →
        tx.isCoinStake = true ∨ env.params.nStakeGenesisLockTime ≤ sinceGenesis env nTimeTx) := by
    unfold checkGenesisKeyInput
    split_ifs with hother hstake hearly
    · simp [hother]
    · simp [hstake]
    · simp [txConsensus, not_not.mp hother, hstake, sinceGenesis, hearly]
    · simp [sinceGenesis, not_lt.mp hearly]
  induction vin with
  | nil => simp [checkGenesisInputs]
  | cons input rest ih =>
    rw [checkGenesisInputs, List.forall_mem_cons, ← hkey]
    cases checkGenesisKeyInput env (view.accessCoin input.prevout).out.scriptPubKey tx nTimeTx with
    | error failure => simp
    | ok value => simpa using ih

/-- The tests of `CheckClaims` before it touches the pool. -/
theorem checkClaimGuards_eq_ok_iff : checkClaimGuards env view tx nTimeTx vClaim = .ok () ↔
      sinceGenesis env nTimeTx ≤ env.params.nStakeGenesisLockTime ∧
        (tx.isCoinStake = true ∨ env.params.nStakeGenesisLockTime ≤ sinceGenesis env nTimeTx) ∧
        spendsGenesisKey env view tx = true ∧
        vClaim.length ≤ (tx.vout.length + 2 ^ 64 - 2) % 2 ^ 64 := by
  unfold checkClaimGuards
  generalize (tx.vout.length + 2 ^ 64 - 2) % 2 ^ 64 = room
  by_cases hlate : env.params.nStakeGenesisLockTime < sinceGenesis env nTimeTx
  · rw [sinceGenesis] at hlate
    rw [if_pos hlate]
    refine iff_of_false (by simp [txConsensus]) fun h => ?_
    exact absurd h.1 (not_le.mpr hlate)
  have hperiod := not_lt.mp hlate
  rw [sinceGenesis] at hlate
  rw [if_neg hlate]
  by_cases hspends : spendsGenesisKey env view tx = true
  · obtain ⟨input, hinput, hgenesis⟩ := List.any_eq_true.mp hspends
    have hinputs : checkGenesisInputs env view tx nTimeTx tx.vin = .ok () ↔
        tx.isCoinStake = true ∨ env.params.nStakeGenesisLockTime ≤ sinceGenesis env nTimeTx := by
      rw [checkGenesisInputs_eq_ok_iff]
      exact ⟨fun h => h input hinput (beq_iff_eq.mp hgenesis), fun h _ _ _ => h⟩
    rw [← hinputs]
    cases checkGenesisInputs env view tx nTimeTx tx.vin with
    | error failure => simp
    | ok value =>
      rw [hspends, Bool.not_true, if_neg Bool.false_ne_true]
      split_ifs with hmany
      · simp [txConsensus, hmany]
      · simp [hperiod, not_lt.mp hmany]
  · cases checkGenesisInputs env view tx nTimeTx tx.vin with
    | error failure => simp [hspends]
    | ok value => simp [hspends, txConsensus]

/-! ## Connected blocks -/

/-- Every transaction of a connected block with claims, the coinbase apart, has passed the
guards, with the coins that it saw. -/
theorem guards_of_connectBlock (hne : st.block.vClaim ≠ [])
    (hok : (connectBlock env kernel ctx ancestors false st).result = .ok ())
    {entry : CTransaction × CCoinsView}
    (hentry : entry ∈ blockViews env st.pindex st.view st.block.vtx)
    (hother : entry.1.isCoinBase = false) :
    checkClaimGuards env entry.2 entry.1 (txTime entry.1 st.block) st.block.vClaim = .ok () := by
  obtain ⟨staged, hconnected⟩ := connected_of_ok hok
  have hclaims := CBlock.vClaim_eq_of_content_eq hconnected.content
  have htime : txTime entry.1 staged.block = txTime entry.1 st.block := by
    rw [txTime, txTime, congrArg CBlockHeader.nTime
      (CBlock.header_eq_of_content_eq hconnected.content)]
  have hloop := (connectTx_forall (P := fun _ => True)
    (Q := fun entry _ => entry.1.isCoinBase = false →
      checkClaimGuards env entry.2 entry.1 (txTime entry.1 staged.block) staged.block.vClaim =
        .ok ())
    (fun tx _ loop _ htx => ⟨trivial, fun hnot => ?_, fun _ h => h⟩) trivial hconnected.loop).2.1
    _ (hconnected.mem_blockViews hentry) hother
  · rw [htime, hclaims] at hloop
    -- the guards read the coins of the view only
    have hread := checkClaimGuards_eq_ok_iff.mp hloop
    exact checkClaimGuards_eq_ok_iff.mpr hread
  · exact ((checkClaims_ok_iff (hclaims ▸ hne)).mp ((connectTx_of_ok htx).2.2 hnot).2).1

/-- Every transaction of a connected block saw some coins. -/
theorem exists_mem_blockViews
    (hok : (connectBlock env kernel ctx ancestors false st).result = .ok ())
    (htx : tx ∈ st.block.vtx) :
    ∃ view, (tx, view) ∈ blockViews env st.pindex st.view st.block.vtx := by
  obtain ⟨staged, hconnected⟩ := connected_of_ok hok
  have hstaged : (blockViews env staged.pindex staged.view staged.block.vtx).map Prod.fst =
      staged.block.vtx := fst_blockViews (applies_of_forEach hconnected.loop).1
  rw [hconnected.blockViews_eq, List.map_map,
    CBlock.vtx_eq_of_content_eq hconnected.content] at hstaged
  rw [← hstaged] at htx
  obtain ⟨entry, hentry, rfl⟩ := List.mem_map.mp htx
  exact ⟨entry.2, hentry⟩

/-- The block is a coinbase and a coinstake that spends a coin of the genesis key and has
room for the claims. -/
def ClaimBlockShape (env : Env) (st : ConnectState) : Prop :=
  ∃ coinbase coinstake view, st.block.vtx = [coinbase, coinstake] ∧
    coinbase.isCoinBase = true ∧ coinstake.isCoinStake = true ∧
    (coinstake, view) ∈ blockViews env st.pindex st.view st.block.vtx ∧
    spendsGenesisKey env view coinstake = true ∧
    st.block.vClaim.length + 2 ≤ coinstake.vout.length

theorem two_le_length_of_isCoinStake (h : tx.isCoinStake = true) : 2 ≤ tx.vout.length := by
  unfold CTransaction.isCoinStake at h
  split at h
  · rename_i hvout
    simp [hvout]
  · cases h

/-- What `CheckBlock` tests of the kinds of the transactions: a coinbase comes first and is
the only one, the coinstake comes second and is the only one, and only the genesis block
has none. -/
theorem kinds_of_checkBlock (hcheck : (checkBlock env true true true block).result = .ok ())
    (hfresh : block.fChecked = false) : (∃ coinbase rest, block.Shaped coinbase rest) ∧
      (∀ tx ∈ block.vtx.drop 2, tx.isCoinStake = false) ∧
      (block.getHash env.host.hash256 ≠ env.params.hashGenesisBlock →
        block.isProofOfStake = true) := by
  obtain ⟨hkind, -, hbody⟩ :=
    (checkBlockTests_ok_iff block).mp ((checkBlock_ok_iff hfresh).mp hcheck).1
  refine ⟨shaped_of_checkBlockBody hbody, (bodyPasses_of_ok hbody).stakes, ?_⟩
  intro hnot
  by_contra hstake
  unfold checkBlockKind at hkind
  rw [if_pos (by simp [hnot, CBlock.isProofOfWork, hstake])] at hkind
  cases hkind

/-- The number of outputs of a transaction is in the range of `size_t`. -/
theorem CBlock.Shaped.length_vout_lt {coinbase : CTransaction} {rest : List CTransaction}
    (h : block.Shaped coinbase rest) (htx : tx ∈ rest) : tx.vout.length < 2 ^ 64 := by
  have hmem : tx ∈ block.vtx := by
    rw [h.vtx_eq]
    exact .tail _ htx
  have hle := (length_le_blockSize hmem).2
  have hweight := h.size
  simp only [WITNESS_SCALE_FACTOR, MAX_BLOCK_WEIGHT] at hweight
  omega

/-- A connected block with claims has the shape exactly if no transaction besides coinbase
and coinstake is timed at the last second of the claim period; the genesis block, whose
only transaction is its coinbase, apart. -/
theorem claimBlockShape_iff
    (hcheck : (checkBlock env true true true st.block.content).result = .ok ())
    (hok : (connectBlock env kernel ctx ancestors false st).result = .ok ())
    (hne : st.block.vClaim ≠ []) : ClaimBlockShape env st ↔
      (st.block.getHash env.host.hash256 = env.params.hashGenesisBlock →
        st.block.isProofOfStake = true) ∧
      ∀ tx ∈ st.block.vtx, tx.isCoinBase = false → tx.isCoinStake = false →
        sinceGenesis env (txTime tx st.block) ≠ env.params.nStakeGenesisLockTime := by
  obtain ⟨⟨coinbase, rest, hshaped⟩, hdrop, hstaked⟩ := kinds_of_checkBlock hcheck rfl
  have hvtx : st.block.vtx = coinbase :: rest := hshaped.vtx_eq
  have hrest (tx : CTransaction) (htx : tx ∈ rest) : tx ∈ st.block.vtx := by
    rw [hvtx]
    exact .tail _ htx
  have hguards (tx : CTransaction) (htx : tx ∈ rest) : ∃ view,
      (tx, view) ∈ blockViews env st.pindex st.view st.block.vtx ∧
      checkClaimGuards env view tx (txTime tx st.block) st.block.vClaim = .ok () := by
    obtain ⟨view, hmem⟩ := exists_mem_blockViews hok (hrest tx htx)
    have hpassed := guards_of_connectBlock hne hok hmem (hshaped.others tx htx)
    exact ⟨view, hmem, hpassed⟩
  constructor
  · rintro ⟨first, coinstake, view, htwo, hfirst, hstake, -⟩
    refine ⟨fun _ => by simpa [CBlock.isProofOfStake, htwo] using hstake, ?_⟩
    intro tx htx hnotBase hnotStake
    rw [htwo] at htx
    rcases List.mem_pair.mp htx with rfl | rfl
    · rw [hfirst] at hnotBase
      cases hnotBase
    · rw [hstake] at hnotStake
      cases hnotStake
  · rintro ⟨hgenesis, hlast⟩
    have hproof : st.block.isProofOfStake = true := by
      by_cases hhash : st.block.getHash env.host.hash256 = env.params.hashGenesisBlock
      · exact hgenesis hhash
      · exact hstaked hhash
    -- a transaction that is no coinstake would be timed at the last second
    have hstakes : ∀ tx ∈ rest, tx.isCoinStake = true := by
      intro tx htx
      obtain ⟨view, -, hpassed⟩ := hguards tx htx
      obtain ⟨hperiod, hstake | hlock, -⟩ := checkClaimGuards_eq_ok_iff.mp hpassed
      · exact hstake
      · by_contra hnot
        refine hlast tx (hrest tx htx) (hshaped.others tx htx) ?_ ?_
        · simpa using hnot
        · exact le_antisymm hperiod hlock
    have hdrop' : ∀ tx ∈ st.block.vtx.drop 2, tx.isCoinStake = false := hdrop
    cases rest with
    | nil => simp [CBlock.isProofOfStake, hvtx] at hproof
    | cons coinstake others =>
      have hmem : coinstake ∈ coinstake :: others := .head _
      cases others with
      | cons other more =>
        have hfalse := hdrop' other (by simp [hvtx])
        have htrue := hstakes other (by simp)
        rw [htrue] at hfalse
        cases hfalse
      | nil =>
        obtain ⟨view, hview, hpassed⟩ := hguards coinstake hmem
        obtain ⟨-, -, hspends, hroom⟩ := checkClaimGuards_eq_ok_iff.mp hpassed
        have hstake := hstakes coinstake hmem
        refine ⟨coinbase, coinstake, view, hvtx, hshaped.coinbase, hstake, hview, hspends, ?_⟩
        have htwo := two_le_length_of_isCoinStake hstake
        have hsize := hshaped.length_vout_lt hmem
        omega

namespace SmallNet

/-- The claims of `snapshotBlock` leave room for its outputs. -/
theorem snapshotBlock_shape :
    ClaimBlockShape (node false false) (second (node false false) snapshotBlock) := by
  have hcheck : (checkBlock (node false false) true true true
      (second (node false false) snapshotBlock).block.content).result = .ok () :=
    passed_iff.mp (by decide +kernel)
  have hok : (connectBlock (node false false) stakeKernel ordinary
      (genesisChain (node false false)) false
      (second (node false false) snapshotBlock)).result = .ok () :=
    passed_iff.mp (by decide +kernel)
  refine (claimBlockShape_iff hcheck hok (by decide +kernel)).mpr ?_
  decide +kernel

/-- An ordinary transaction that spends a genesis output, with a single output. -/
def spendGenesis : CTransaction :=
  ⟨[⟨genesisPrevout 1, ⟨[]⟩, 0xffffffff, []⟩], [⟨99990000000, genesisPubKey⟩], 3, 0, 0⟩

/-- A block with a claim in the last second of the claim period. -/
def lastSecondBlock : CBlock :=
  mkBlock 1 genesisHash 1700001000
    [mkCoinstake (genesisPrevout 0) [⟨99990000000, genesisPubKey⟩, ⟨10000000, payToKeyHash 2⟩],
      spendGenesis] [mkClaim (payToKeyHash 1) (payToKeyHash 2)]

/-- In the last second of the claim period, a block with a claim has a third transaction. -/
theorem third_transaction_in_last_second :
    (checkBlock (node false false) true true true lastSecondBlock.content).result = .ok () ∧
      (connectBlock (node false false) stakeKernel ordinary (genesisChain (node false false)) false
        (second (node false false) lastSecondBlock)).result = .ok () ∧
      lastSecondBlock.vClaim ≠ [] ∧
      ¬ ClaimBlockShape (node false false) (second (node false false) lastSecondBlock) := by
  refine ⟨passed_iff.mp (by decide +kernel), passed_iff.mp (by decide +kernel),
    by decide +kernel, ?_⟩
  rintro ⟨coinbase, coinstake, view, hvtx, -⟩
  have hlength : lastSecondBlock.vtx.length = 2 := congrArg List.length hvtx
  exact absurd hlength (by decide)

end SmallNet

end Patchcoin
