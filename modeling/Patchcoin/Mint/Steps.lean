import Patchcoin.Mint.CoinStake

/-!
# What the steps of making a coinstake can do

One lemma for each part of `CreateCoinStake` says what it does when it succeeds: how the loop
over the claims treats a claim (`payClaims_cons_cases`), what outputs there are in the two
branches, how an attempt ends (`attempt_of_again`, `attempt_of_leave`), and what the plan is
made of (`Planned`).  The modules after this one use these lemmas and do not look into the
functions again.
-/

namespace Patchcoin

open StakePlan CTxIn

variable {env : Env} {stake : StakeRules} {wallet : CWallet} {call : MintCall} {plan : StakePlan}
variable {claim : Claim} {inputs : List COutput} {vin : List CTxIn} {st : StakeLoop}
  {outputs : StakeOutputs} {amount current nAllowedBalance : ℤ}

/-! ## Payouts -/

/-- A claim is paid an amount: what it lacks, or all that is left. -/
structure PaysOut (env : Env) (wallet : CWallet) (claim : Claim) (current amount : ℤ) : Prop where
  valid : (claim.isValid env).2 = .OK
  current_pos : 0 < current
  lacks : ∃ nTotalReceived, wallet.calculateReceived claim.getTarget = some nTotalReceived ∧
    0 < claim.getEligible env - nTotalReceived ∧
    amount = min current (claim.getEligible env - nTotalReceived)

theorem PaysOut.pos (h : PaysOut env wallet claim current amount) : 0 < amount := by
  obtain ⟨nTotalReceived, -, hlacks, rfl⟩ := h.lacks
  exact lt_min h.current_pos hlacks

theorem PaysOut.le (h : PaysOut env wallet claim current amount) : amount ≤ current := by
  obtain ⟨nTotalReceived, -, -, rfl⟩ := h.lacks
  exact min_le_left _ _

/-- Why a claim is passed over. -/
inductive Skips (env : Env) (wallet : CWallet) (claim : Claim) (current : ℤ) : Prop
  | invalid (h : (claim.isValid env).2 ≠ .OK)
  | exhausted (h : current ≤ 0)
  | paid {nTotalReceived : ℤ} (hreceived : wallet.calculateReceived claim.getTarget =
      some nTotalReceived) (h : claim.getEligible env ≤ nTotalReceived)

/-- What the loop does with a claim: it passes over it, pays it and goes on, or finds that
the output does not fit. -/
theorem payClaims_cons_cases {rest : List Claim} {st paid : PayoutLoop}
    (h : plan.payClaims env wallet vin (claim :: rest) st = .ok paid) :
    (Skips env wallet claim st.current ∧ plan.payClaims env wallet vin rest st = .ok paid) ∨
      ∃ amount, PaysOut env wallet claim st.current amount ∧
        ((plan.tooLarge vin (st.pay claim amount).vout = true ∧
            paid = (st.pay claim amount).takeBack) ∨
          (plan.tooLarge vin (st.pay claim amount).vout = false ∧
            plan.payClaims env wallet vin rest (st.pay claim amount) = .ok paid)) := by
  rw [payClaims] at h
  by_cases hvalid : (claim.isValid env).2 ≠ .OK
  · rw [if_pos hvalid] at h
    exact .inl ⟨.invalid hvalid, h⟩
  · rw [if_neg hvalid] at h
    split at h
    · cases h
    · next nTotalReceived hreceived =>
      dsimp only at h
      split_ifs at h with hrange hcurrent hlacks hmoney hlarge
      · cases h
      · exact .inl ⟨.exhausted hcurrent, h⟩
      · exact .inl ⟨.paid hreceived (by omega), h⟩
      · cases h
      · exact .inr ⟨_, ⟨not_not.mp hvalid, not_le.mp hcurrent, nTotalReceived, hreceived,
          not_le.mp hlacks, rfl⟩, .inl ⟨hlarge, (Except.ok.inj h).symm⟩⟩
      · exact .inr ⟨_, ⟨not_not.mp hvalid, not_le.mp hcurrent, nTotalReceived, hreceived,
          not_le.mp hlacks, rfl⟩, .inr ⟨Bool.eq_false_iff.mpr hlarge, h⟩⟩

/-- What the genesis branch can do: the loop over the claims, and the change. -/
theorem genesisOutputs_cases (h : plan.genesisOutputs env wallet st = .ok outputs) :
    0 ≤ plan.nCredit - st.nMinFee ∧ ∃ paid,
      plan.payClaims env wallet st.vin plan.claims (plan.startPayouts env st) = .ok paid ∧
      outputs.vClaim = paid.vClaim ∧
      ((paid.current ≤ 0 ∧ outputs.vout = paid.vout ∧ outputs.outputsOk = paid.outputsOk) ∨
        (0 < paid.current ∧
          ((plan.tooLarge st.vin (paid.vout ++
              [amountOut paid.current env.params.genesisPubKey]) = true ∧
            outputs.vout = paid.vout ∧ outputs.outputsOk = false) ∨
          (plan.tooLarge st.vin (paid.vout ++
              [amountOut paid.current env.params.genesisPubKey]) = false ∧
            outputs.vout = paid.vout ++ [amountOut paid.current env.params.genesisPubKey] ∧
            outputs.outputsOk = paid.outputsOk)))) := by
  unfold genesisOutputs at h
  split at h
  · cases h
  · next hnegative =>
    refine ⟨not_lt.mp hnegative, ?_⟩
    split at h
    · cases h
    · next paid hpay =>
      refine ⟨paid, hpay, ?_⟩
      dsimp only at h
      split at h
      · next hrest =>
        cases h
        exact ⟨rfl, .inl ⟨hrest, rfl, rfl⟩⟩
      · next hrest =>
        split at h
        · next hlarge =>
          cases h
          exact ⟨rfl, .inr ⟨not_le.mp hrest, .inl ⟨hlarge, rfl, rfl⟩⟩⟩
        · next hlarge =>
          cases h
          exact ⟨rfl, .inr ⟨not_le.mp hrest, .inr ⟨Bool.eq_false_iff.mpr hlarge, rfl, rfl⟩⟩⟩

/-! ## Splits -/

/-- The number of outputs that fit is not zero, and smaller than the number that was tried. -/
theorem splitLoop_limit {outValue remainder : ℤ} {left i k : ℕ} {vout vout' : List CTxOut}
    (h : plan.splitLoop vin outValue remainder left i vout = .ok (vout', some k)) :
    1 ≤ k ∧ k < i + left := by
  induction left generalizing i vout with
  | zero =>
    rw [splitLoop] at h
    cases h
  | succ left ih =>
    rw [splitLoop] at h
    generalize amountOut (outValue + if i = 0 then remainder else 0) plan.scriptPubKeyOut = out
      at h
    split_ifs at h with hlarge hi
    · cases h
    · cases h
      omega
    · have hnext := ih h
      omega

theorem one_le_optimalOutputs (current : ℤ) : 1 ≤ plan.optimalOutputs current := by
  have htarget := plan.target_pos
  unfold optimalOutputs
  generalize plan.nTargetOutputAmount = target at htarget ⊢
  split_ifs
  · exact le_max_right _ _
  · -- the root is at least the target
    have hroot : target.toNat ≤ (4 * current * current + target * target).toNat.sqrt := by
      rw [Nat.le_sqrt]
      have hcurrent := mul_self_nonneg current
      zify
      rw [Int.toNat_of_nonneg htarget.le, Int.toNat_of_nonneg (by nlinarith)]
      nlinarith
    rw [Int.le_ediv_iff_mul_le (by omega)]
    omega

/-- The limit on the number of outputs after an attempt. -/
theorem splitOutputs_maxOutputs (hmax : 1 ≤ st.maxOutputs)
    (h : plan.splitOutputs wallet st = .ok outputs) :
    1 ≤ outputs.maxOutputs ∧ (outputs.outputsOk = true ∧ outputs.maxOutputs = st.maxOutputs ∨
      outputs.outputsOk = false ∧ outputs.maxOutputs < st.maxOutputs) := by
  unfold splitOutputs at h
  dsimp only at h
  split_ifs at h with hsplit
  · have hle : min (plan.optimalOutputs (plan.nCredit - st.nMinFee)) st.maxOutputs ≤
      st.maxOutputs := min_le_right _ _
    generalize min (plan.optimalOutputs (plan.nCredit - st.nMinFee)) st.maxOutputs = desired
      at h hle
    split at h
    · cases h
    · cases h
      exact ⟨hmax, .inl ⟨rfl, rfl⟩⟩
    · next i hloop =>
      cases h
      have hlimit := splitLoop_limit hloop
      exact ⟨by dsimp only; omega, .inr ⟨rfl, by dsimp only; omega⟩⟩
  · cases h
    exact ⟨hmax, .inl ⟨rfl, rfl⟩⟩

/-! ## Attempts -/

theorem nNeededFee_nonneg (nBytes : ℕ) : 0 ≤ plan.nNeededFee env nBytes := by
  unfold nNeededFee
  dsimp only
  split_ifs <;> omega

theorem nNeededFee_le (nBytes : ℕ) : plan.nNeededFee env nBytes ≤ MAX_MONEY := by
  have hfee : getMinFee env.params nBytes plan.nTime ≤ MAX_MONEY := by
    unfold getMinFee
    dsimp only
    generalize (if (isProtocolV07 env.params plan.nTime.toNat || plan.nTime == 0) = true then
      if nBytes < 100 then MIN_TX_FEE else (nBytes : ℤ) * (PERKB_TX_FEE / 1000)
      else (1 + (nBytes : ℤ) / 1000) * PERKB_TX_FEE) = fee
    split_ifs with hrange
    · exact le_rfl
    · exact ((moneyRange_iff fee).mp (by simpa using hrange)).2
  have hgranted : 0 ≤ PERKB_TX_FEE := by decide
  have hmoney : 0 ≤ MAX_MONEY := by decide
  unfold nNeededFee
  dsimp only
  split_ifs <;> omega

theorem prevouts_signedInputs (vin : List CTxIn) (scripts : ℕ → CScript × List (List UInt8)) :
    (signedInputs vin scripts).map prevout = vin.map prevout := by
  apply List.ext_getElem?
  intro nIn
  unfold signedInputs
  rw [List.getElem?_map, List.getElem?_mapIdx, List.getElem?_map]
  cases vin[nIn]? <;> rfl

theorem stakeOutputs_maxOutputs (hheld : plan.genesis_key_held = false) (hmax : 1 ≤ st.maxOutputs)
    (h : plan.stakeOutputs env wallet st = .ok outputs) :
    1 ≤ outputs.maxOutputs ∧ (outputs.outputsOk = true ∧ outputs.maxOutputs = st.maxOutputs ∨
      outputs.outputsOk = false ∧ outputs.maxOutputs < st.maxOutputs) := by
  unfold stakeOutputs at h
  rw [hheld, if_neg Bool.false_ne_true] at h
  exact splitOutputs_maxOutputs hmax h

/-- Another attempt follows with a higher fee or fewer outputs. -/
theorem attempt_of_again {next : StakeLoop} (h : plan.attempt env wallet st = .again next) :
    ∃ outputs vin, plan.stakeOutputs env wallet st = .ok outputs ∧
      vin.map prevout = st.vin.map prevout ∧
      next = ⟨st.attempt + 1, vin, plan.nNeededFee env (txSize (plan.txNew vin outputs.vout)),
        outputs.maxOutputs, outputs.vClaim⟩ ∧
      (st.nMinFee < next.nMinFee ∨ outputs.outputsOk = false) := by
  unfold attempt signStake at h
  split at h
  · cases h
  · next outputs houtputs =>
    split at h
    · cases h
    · next scripts hsign =>
      dsimp only at h
      split_ifs at h with hsize hcause
      cases h
      exact ⟨outputs, _, houtputs, prevouts_signedInputs st.vin scripts, rfl, hcause⟩

/-- The last attempt. -/
theorem attempt_of_leave {built : BuiltStake}
    (h : plan.attempt env wallet st = .leave (.ok built)) :
    ∃ outputs vin, plan.stakeOutputs env wallet st = .ok outputs ∧
      vin.map prevout = st.vin.map prevout ∧
      txSize (plan.txNew vin outputs.vout) < 1000000 / 5 ∧
      built = ⟨plan.txNew vin outputs.vout, outputs.vClaim, st.nMinFee⟩ ∧
      outputs.outputsOk = true := by
  unfold attempt signStake at h
  split at h
  · cases h
  · next outputs houtputs =>
    split at h
    · cases h
    · next scripts hsign =>
      dsimp only at h
      split_ifs at h with hsize hcause
      · cases h
      · cases h
        rw [not_or, Bool.not_eq_false] at hcause
        exact ⟨outputs, _, houtputs, prevouts_signedInputs st.vin scripts, not_le.mp hsize, rfl,
          hcause.2⟩

/-! ## The plan -/

theorem allowedBalance_le (h : allowedBalance wallet = .ok nAllowedBalance) :
    nAllowedBalance ≤ MAX_MONEY := by
  have hbalance := wallet.nBalance_le
  unfold allowedBalance at h
  split at h
  · cases h
  · split_ifs at h
    cases h
    omega
  · split_ifs at h
    cases h
    exact hbalance

/-- What has been tested when there is a plan for a kernel, and what the plan is made of. -/
structure Planned (env : Env) (wallet : CWallet) (call : MintCall) (g_txindex : TxIndex)
    (coins : List COutput) (nAllowedBalance : ℤ) (found : FoundKernel) (plan : StakePlan)
    (inputs : List COutput) : Prop where
  kernel_ne : found.kernel.txout.value ≠ 0
  kernel_le : found.kernel.txout.value ≤ nAllowedBalance
  held : plan.genesis_key_held =
    (env.options.genesis_key_held || env.params.genesisPubKey == found.scriptPubKeyOut)
  claims : gatherClaims env wallet call plan.genesis_key_held = .ok plan.claims
  combined : ∃ nCredit, combineInputs wallet call g_txindex found plan.genesis_key_held
    nAllowedBalance coins ⟨[found.kernel], found.kernel.txout.value⟩ = .ok ⟨inputs, nCredit⟩ ∧
      plan.nCredit = nCredit + call.nFees
  nTime : plan.nTime = call.now - UInt32.ofNat found.n
  minterOut : plan.minterOut = found.minterOut
  fees : 0 ≤ call.nFees

theorem planned_of_ok {g_txindex : TxIndex} {coins : List COutput} {found : FoundKernel}
    (h : planStake env wallet call g_txindex coins nAllowedBalance found = .ok (plan, inputs)) :
    Planned env wallet call g_txindex coins nAllowedBalance found plan inputs := by
  unfold planStake at h
  split at h
  · cases h
  · next hcredit =>
    rw [not_or, not_lt] at hcredit
    dsimp only at h
    split at h
    · cases h
    · next claims hclaims =>
      split at h
      · cases h
      · next st hcombine =>
        split at h
        · cases h
        · split at h
          · cases h
          · next hfees =>
            cases h
            exact ⟨hcredit.1, hcredit.2, rfl, hclaims, ⟨st.nCredit, hcombine, rfl⟩, rfl, rfl,
              not_lt.mp hfees⟩

/-- A plan belongs to a kernel that was found among the coins of the wallet. -/
theorem planned_of_prepareStake (h : prepareStake env stake wallet call = .ok (plan, inputs)) :
    ∃ g_txindex coins nAllowedBalance found, call.g_txindex = some g_txindex ∧
      wallet.selectCoins nAllowedBalance = some coins ∧ nAllowedBalance ≤ MAX_MONEY ∧
      searchKernel env stake wallet call g_txindex coins = .ok (some found) ∧
      Planned env wallet call g_txindex coins nAllowedBalance found plan inputs := by
  unfold prepareStake at h
  split at h
  · cases h
  · next g_txindex hindex =>
    split at h
    · cases h
    · next nAllowedBalance hallowed =>
      split at h
      · cases h
      · next coins hcoins =>
        split at h
        · cases h
        · cases h
        · next found hfound =>
          exact ⟨g_txindex, coins, nAllowedBalance, found, hindex, hcoins,
            allowedBalance_le hallowed, hfound, planned_of_ok h⟩

/-- A coinstake that the wallet makes itself comes from a plan and the loop. -/
theorem created_of_some {attempts : ℕ} {created : CreatedStake} {nMinFee : ℤ}
    (h : createCoinStake? env stake wallet call attempts = some (.ok created))
    (hbuilt : created.built = some (inputs, nMinFee)) :
    ∃ plan, prepareStake env stake wallet call = .ok (plan, inputs) ∧
      created.genesis_key_held = plan.genesis_key_held ∧
      Loop.run (plan.attempt env wallet) attempts { vin := newInputs inputs } =
        some (.ok ⟨created.txNew, created.vClaim, nMinFee⟩) := by
  unfold createCoinStake? at h
  split at h
  · cases h
    cases hbuilt
  · split at h
    · cases h
    · next plan coins hplan =>
      obtain ⟨result, hrun, hresult⟩ := Option.map_eq_some_iff.mp h
      cases result with
      | error failure => cases hresult
      | ok built =>
        cases hresult
        cases hbuilt
        exact ⟨plan, hplan, rfl, hrun⟩

end Patchcoin
