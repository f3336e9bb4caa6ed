import Patchcoin.Chain.Supply
import Patchcoin.SmallMint

/-!
# What a coinstake pays out

A coinstake pays its inputs and the fees of the block, less its own fee.  An attempt whose
outputs do not all fit has lost the value of what it took back, but such an attempt is
never the last one: the loop is left only if all outputs fit.  So nothing is lost or gained
on the way out, in either branch (`attempt_pays`), however many attempts there were.

In the block the transactions besides the coinstake pay their fees and nothing else, so the
mint of the block is what the coinstake takes of the fees (`connectMint_eq`).
-/

namespace Patchcoin

open StakePlan Outcome

variable {built : BuiltStake} {found : FoundKernel} {coins inputs : List COutput} {vin : List CTxIn}
  {st : StakeLoop} {outputs : StakeOutputs} {g_txindex : TxIndex} {attempts : ℕ}
  {nAllowedBalance : ℤ}

/-! ## Sums of outputs -/

/-- The sum of the values of outputs. -/
def sumValues (vout : List CTxOut) : ℤ := (vout.map CTxOut.value).sum

@[simp] theorem sumValues_nil : sumValues [] = 0 := rfl

@[simp] theorem sumValues_append (first second : List CTxOut) :
    sumValues (first ++ second) = sumValues first + sumValues second := by
  unfold sumValues
  rw [List.map_append, List.sum_append]

@[simp] theorem sumValues_singleton (out : CTxOut) : sumValues [out] = out.value := by
  simp [sumValues]

/-- The amounts that fit into an output. -/
def FitsInt64 (amount : ℤ) : Prop := -2 ^ 63 ≤ amount ∧ amount < 2 ^ 63

theorem value_amountOut {amount : ℤ} (h : FitsInt64 amount) (scriptPubKey : CScript) :
    (amountOut amount scriptPubKey).value = amount := by
  exact Int64.toInt_ofInt_of_le (by simpa using h.1) (by simpa using h.2)

theorem sumValues_firstOutputs (plan : StakePlan) : sumValues plan.firstOutputs = 0 := by
  have hzero (scriptPubKey : CScript) : (⟨0, scriptPubKey⟩ : CTxOut).value = 0 := rfl
  unfold firstOutputs
  cases plan.minterOut <;> simp [sumValues, hzero]

variable {env : Env} {stake : StakeRules} {wallet : CWallet} {call : MintCall} {plan : StakePlan}

/-! ## Payouts -/

/-- As long as all outputs fit, what is paid and what is left add up to the same. -/
theorem payClaims_pays {claims : List Claim} {st paid : PayoutLoop} (hnonneg : 0 ≤ st.current)
    (hlt : st.current < 2 ^ 63) (h : plan.payClaims env wallet vin claims st = .ok paid)
    (hok : paid.outputsOk = true) : 0 ≤ paid.current ∧ paid.current ≤ st.current ∧
      sumValues paid.vout + paid.current = sumValues st.vout + st.current := by
  induction claims generalizing st with
  | nil =>
    rw [payClaims] at h
    cases h
    exact ⟨hnonneg, le_rfl, rfl⟩
  | cons claim rest ih =>
    rcases payClaims_cons_cases h with ⟨-, hrest⟩ | ⟨amount, hpays, ⟨-, hback⟩ | ⟨-, hrest⟩⟩
    · exact ih hnonneg hlt hrest
    · rw [hback] at hok
      cases hok
    · have hpos := hpays.pos
      have hle := hpays.le
      have hvalue := @value_amountOut amount ⟨by omega, by omega⟩ claim.getTarget
      obtain ⟨hpaid, hless, hsum⟩ := ih (by unfold PayoutLoop.pay; dsimp only; omega)
        (by unfold PayoutLoop.pay; dsimp only; omega) hrest
      unfold PayoutLoop.pay at hless hsum
      dsimp only at hless hsum
      rw [sumValues_append, sumValues_singleton, hvalue] at hsum
      exact ⟨hpaid, by omega, by omega⟩

theorem sumValues_startPayouts (st : StakeLoop) :
    sumValues (plan.startPayouts env st).vout = 0 := by
  unfold startPayouts
  rw [sumValues_append, sumValues_firstOutputs]
  split_ifs <;> rfl

theorem genesisOutputs_pays (hlt : plan.nCredit - st.nMinFee < 2 ^ 63)
    (h : plan.genesisOutputs env wallet st = .ok outputs) (hok : outputs.outputsOk = true) :
    sumValues outputs.vout = plan.nCredit - st.nMinFee := by
  obtain ⟨hnonneg, paid, hpay, -, hcases⟩ := genesisOutputs_cases h
  have hpays := payClaims_pays hnonneg hlt hpay
  rw [sumValues_startPayouts] at hpays
  have hcurrent : (plan.startPayouts env st).current = plan.nCredit - st.nMinFee := rfl
  rw [hcurrent] at hpays
  rcases hcases with ⟨hrest, hvout, hsame⟩ | ⟨hrest, ⟨-, -, hfalse⟩ | ⟨-, hvout, hsame⟩⟩
  · obtain ⟨hpaid, -, hsum⟩ := hpays (hsame.symm.trans hok)
    rw [hvout]
    omega
  · rw [hok] at hfalse
    cases hfalse
  · obtain ⟨hpaid, hless, hsum⟩ := hpays (hsame.symm.trans hok)
    rw [hvout, sumValues_append, sumValues_singleton, value_amountOut ⟨by omega, by omega⟩]
    omega

/-! ## Splits -/

theorem splitLoop_pays {outValue remainder : ℤ} {left i : ℕ} {vout vout' : List CTxOut}
    (hvalue : FitsInt64 outValue) (hfirst : FitsInt64 (outValue + remainder))
    (h : plan.splitLoop vin outValue remainder left i vout = .ok (vout', none)) :
    sumValues vout' = sumValues vout + outValue * left +
      if i = 0 ∧ 0 < left then remainder else 0 := by
  induction left generalizing i vout with
  | zero =>
    rw [splitLoop] at h
    cases h
    simp
  | succ left ih =>
    have hout : (amountOut (outValue + if i = 0 then remainder else 0)
        plan.scriptPubKeyOut).value = outValue + if i = 0 then remainder else 0 := by
      apply value_amountOut
      split_ifs
      · exact hfirst
      · rwa [add_zero]
    rw [splitLoop] at h
    generalize amountOut (outValue + if i = 0 then remainder else 0) plan.scriptPubKeyOut = out
      at h hout
    split_ifs at h
    · cases h
    · cases h
    · have hnext := ih h
      have hlater : ¬ (i + 1 = 0 ∧ 0 < left) := by omega
      rw [sumValues_append, sumValues_singleton, hout, if_neg hlater] at hnext
      rw [hnext, Nat.cast_succ]
      by_cases hi : i = 0
      · rw [if_pos hi, if_pos ⟨hi, by omega⟩]
        ring
      · rw [if_neg hi, if_neg (by omega)]
        ring

theorem splitOutputs_pays (hcredit : |plan.nCredit - st.nMinFee| < 2 ^ 62)
    (hmax : 1 ≤ st.maxOutputs) (h : plan.splitOutputs wallet st = .ok outputs)
    (hok : outputs.outputsOk = true) : sumValues outputs.vout = plan.nCredit - st.nMinFee := by
  unfold splitOutputs at h
  dsimp only at h
  generalize hcurrent : plan.nCredit - st.nMinFee = current at h hcredit ⊢
  rw [abs_lt] at hcredit
  split_ifs at h with hsplit
  · have hone : 1 ≤ min (plan.optimalOutputs current) st.maxOutputs :=
      le_min (one_le_optimalOutputs current) hmax
    generalize min (plan.optimalOutputs current) st.maxOutputs = desired at h hone
    have hquot : (current.tdiv desired).natAbs ≤ current.natAbs := by
      rw [Int.natAbs_tdiv]
      exact Nat.div_le_self _ _
    have hrest : (current - current.tdiv desired * desired).natAbs ≤ current.natAbs := by
      have hmod : current - current.tdiv desired * desired = current.tmod desired := by
        have hsum := Int.tdiv_mul_add_tmod current desired
        omega
      rw [hmod, Int.natAbs_tmod]
      exact Nat.mod_le _ _
    generalize hq : current.tdiv desired = outValue at h hquot hrest
    generalize hr : current - outValue * desired = remainder at h hrest
    split at h
    · cases h
    · next hloop =>
      cases h
      have hpays := splitLoop_pays ⟨by omega, by omega⟩ ⟨by omega, by omega⟩ hloop
      rw [sumValues_firstOutputs, Int.toNat_of_nonneg (by omega), if_pos ⟨rfl, by omega⟩] at hpays
      dsimp only
      omega
    · cases h
      cases hok
  · cases h
    rw [sumValues_append, sumValues_firstOutputs, sumValues_singleton,
      value_amountOut ⟨by omega, by omega⟩, zero_add]

/-! ## Attempts -/

/-- What holds before every attempt. -/
structure StakeLoop.Sane (plan : StakePlan) (inputs : List COutput) (st : StakeLoop) : Prop where
  nMinFee_nonneg : 0 ≤ st.nMinFee
  nMinFee_le : st.nMinFee ≤ MAX_MONEY
  prevouts : st.vin.map CTxIn.prevout = inputs.map COutput.outpoint
  maxOutputs : plan.genesis_key_held = false → 1 ≤ st.maxOutputs

/-- The outputs of an attempt that all fit pay the credit less the fee. -/
theorem stakeOutputs_pays (hsane : st.Sane plan inputs) (hnonneg : 0 ≤ plan.nCredit)
    (hcredit : plan.nCredit ≤ 2 * MAX_MONEY) (h : plan.stakeOutputs env wallet st = .ok outputs)
    (hok : outputs.outputsOk = true) : sumValues outputs.vout = plan.nCredit - st.nMinFee := by
  have hfee := hsane.nMinFee_nonneg
  have hle := hsane.nMinFee_le
  have hmoney : 2 * MAX_MONEY < 2 ^ 62 := by decide
  unfold stakeOutputs at h
  cases hheld : plan.genesis_key_held with
  | true =>
    rw [hheld, if_pos rfl] at h
    exact genesisOutputs_pays (by omega) h hok
  | false =>
    rw [hheld, if_neg Bool.false_ne_true] at h
    exact splitOutputs_pays (abs_lt.mpr ⟨by omega, by omega⟩) (hsane.maxOutputs hheld) h hok

theorem StakeLoop.Sane.attempt {next : StakeLoop} (hsane : st.Sane plan inputs)
    (h : plan.attempt env wallet st = .again next) : next.Sane plan inputs := by
  obtain ⟨outputs, vin, houtputs, hprevouts, rfl, -⟩ := attempt_of_again h
  exact ⟨nNeededFee_nonneg _, nNeededFee_le _, hprevouts.trans hsane.prevouts,
    fun hheld => (stakeOutputs_maxOutputs hheld (hsane.maxOutputs hheld) houtputs).1⟩

/-- What a coinstake spends and pays, once it is built. -/
structure BuiltStake.Pays (plan : StakePlan) (inputs : List COutput) (built : BuiltStake) :
    Prop where
  prevouts : built.txNew.vin.map CTxIn.prevout = inputs.map COutput.outpoint
  sum : sumValues built.txNew.vout = plan.nCredit - built.nMinFee
  fee : 0 ≤ built.nMinFee

theorem attempt_pays (hsane : st.Sane plan inputs) (hnonneg : 0 ≤ plan.nCredit)
    (hcredit : plan.nCredit ≤ 2 * MAX_MONEY) (h : plan.attempt env wallet st = .leave (.ok built)) :
    built.Pays plan inputs := by
  obtain ⟨outputs, vin, houtputs, hprevouts, -, rfl, hok⟩ := attempt_of_leave h
  exact ⟨hprevouts.trans hsane.prevouts, stakeOutputs_pays hsane hnonneg hcredit houtputs hok,
    hsane.nMinFee_nonneg⟩

theorem sane_start (plan : StakePlan) (inputs : List COutput) :
    StakeLoop.Sane plan inputs { vin := newInputs inputs } where
  nMinFee_nonneg := le_rfl
  nMinFee_le := show (0 : ℤ) ≤ MAX_MONEY by decide
  prevouts := by
    unfold newInputs
    rw [List.map_map]
    rfl
  maxOutputs := fun _ => show (1 : ℤ) ≤ 30 by decide

/-- What the loop pays, after any number of attempts. -/
theorem run_pays (hnonneg : 0 ≤ plan.nCredit) (hcredit : plan.nCredit ≤ 2 * MAX_MONEY)
    (h : Loop.run (plan.attempt env wallet) attempts { vin := newInputs inputs } =
      some (.ok built)) : built.Pays plan inputs := by
  refine Loop.run_ok_induction (I := StakeLoop.Sane plan inputs)
    (Q := BuiltStake.Pays plan inputs) ?_ ?_ (sane_start plan inputs) h
  · exact fun st next hsane hagain => hsane.attempt hagain
  · exact fun st built hsane hleave => attempt_pays hsane hnonneg hcredit hleave

/-! ## The credit -/

/-- The sum of the inputs. -/
def sumInputs (inputs : List COutput) : ℤ := (inputs.map fun pcoin => pcoin.txout.value).sum

theorem combineInputs_sum {held : Bool} {st st' : StakeInputs}
    (hsum : st.nCredit = sumInputs st.inputs) (hnonneg : 0 ≤ st.nCredit)
    (hle : st.nCredit ≤ nAllowedBalance)
    (h : combineInputs wallet call g_txindex found held nAllowedBalance coins st = .ok st') :
    st'.nCredit = sumInputs st'.inputs ∧ 0 ≤ st'.nCredit ∧ st'.nCredit ≤ nAllowedBalance := by
  induction coins generalizing st with
  | nil =>
    rw [combineInputs] at h
    cases h
    exact ⟨hsum, hnonneg, hle⟩
  | cons pcoin rest ih =>
    rw [combineInputs] at h
    split at h
    · exact ih hsum hnonneg hle h
    · split_ifs at h with hread hmay hmany hsmall hreserve hlarge
      · cases h
        exact ⟨hsum, hnonneg, hle⟩
      · cases h
        exact ⟨hsum, hnonneg, hle⟩
      · cases h
        exact ⟨hsum, hnonneg, hle⟩
      · exact ih hsum hnonneg hle h
      · refine @ih ⟨st.inputs ++ [pcoin], st.nCredit + pcoin.txout.value⟩ ?_ ?_ ?_ h
        · simp [sumInputs, hsum]
        · have hvalue := pcoin.value_nonneg
          dsimp only
          omega
        · exact not_lt.mp hreserve
      · exact ih hsum hnonneg hle h

/-- The plan of a coinstake: the credit is the sum of the inputs and the fees. -/
structure StakePlan.Funded (call : MintCall) (plan : StakePlan) (inputs : List COutput) : Prop where
  nCredit_eq : plan.nCredit = sumInputs inputs + call.nFees
  nonneg : 0 ≤ plan.nCredit
  le : plan.nCredit ≤ 2 * MAX_MONEY

theorem Planned.funded (hallowed : nAllowedBalance ≤ MAX_MONEY) (hmoney : call.nFees ≤ MAX_MONEY)
    (h : Planned env wallet call g_txindex coins nAllowedBalance found plan inputs) :
    plan.Funded call inputs := by
  obtain ⟨nCredit, hcombine, hcredit⟩ := h.combined
  obtain ⟨hsum, hnonneg, hle⟩ := combineInputs_sum (by simp [sumInputs])
    found.kernel.value_nonneg h.kernel_le hcombine
  have hfees := h.fees
  dsimp only at hsum hnonneg hle
  exact ⟨by rw [hcredit, hsum], by omega, by omega⟩

/-! ## The mint of the block -/

section Mint

variable {ctx : Circumstances} {pindex : CBlockIndex} {ancestors : IndexChain}
  {block : CBlock} {tx : CTransaction}
variable {view : CCoinsView} {packages : List CTransaction} {st : TxLoop} {nTimeTx : UInt32}
  {nSpendHeight : ℕ}

theorem checkTxInputLoop_sum {vin : List CTxIn} {nValueIn sum : ℤ}
    (h : checkTxInputLoop env view tx nSpendHeight nTimeTx vin nValueIn = .ok sum) :
    sum = nValueIn + (vin.map fun input => (view.accessCoin input.prevout).out.value).sum := by
  induction vin generalizing nValueIn with
  | nil =>
    rw [checkTxInputLoop] at h
    cases h
    simp
  | cons input rest ih =>
    rw [checkTxInputLoop] at h
    split at h
    · cases h
    · next next hinput =>
      have hnext : next = nValueIn + (view.accessCoin input.prevout).out.value := by
        unfold checkTxInput txConsensus at hinput
        dsimp only at hinput
        cases hkey : checkGenesisKeyInput env
            (view.accessCoin input.prevout).out.scriptPubKey tx nTimeTx with
        | _ =>
          rw [hkey] at hinput
          split_ifs at hinput <;> exact (Except.ok.inj hinput).symm
      rw [ih h, hnext, List.map_cons, List.sum_cons]
      ring

/-- The fee of a transaction is what it spends less what it pays. -/
theorem checkTxInputs_fee {txfee : ℤ} (hstake : tx.isCoinStake = false)
    (h : checkTxInputs env view tx nSpendHeight nTimeTx = .ok txfee) :
    ∃ value, tx.getValueOut = some value ∧
      txfee = (tx.vin.map fun input => (view.accessCoin input.prevout).out.value).sum - value := by
  unfold checkTxInputs at h
  split_ifs at h
  split at h
  · cases h
  · next hloop =>
    have hsum := checkTxInputLoop_sum hloop
    unfold checkTxFee txConsensus at h
    rw [hstake, if_neg Bool.false_ne_true] at h
    split at h
    · cases h
    · next value hvalue =>
      dsimp only at h
      split_ifs at h
      cases h
      exact ⟨value, hvalue, by rw [hsum, zero_add]⟩

/-- What a transaction that passes adds to the mint of its block. -/
theorem connectTx_mint (h : (connectTx env ctx pindex ancestors block tx st).result = .ok ()) :
    connectMint (connectTx env ctx pindex ancestors block tx st).state = connectMint st +
      if tx.isCoinBase || tx.isCoinStake then sumValues tx.vout - spentValue st.view tx
      else 0 := by
  obtain ⟨value, hvalue, hout, hin, hfee⟩ := connectTx_sums h
  dsimp only [TxLoop.sums] at hout hin hfee
  have hsum : value = sumValues tx.vout := CTransaction.getValueOut_eq hvalue
  unfold connectMint
  rw [hout, hin, hsum]
  -- a coinbase and a coinstake may create money; every other transaction leaves a fee
  by_cases hkind : (tx.isCoinBase || tx.isCoinStake) = true
  · rw [if_pos hkind] at hfee ⊢
    rw [hfee]
    ring
  · rw [if_neg hkind] at hfee ⊢
    rw [Bool.or_eq_true, not_or, Bool.not_eq_true, Bool.not_eq_true] at hkind
    obtain ⟨_, hvalue', htxfee⟩ := checkTxInputs_fee hkind.2 hfee
    rw [hvalue] at hvalue'
    cases hvalue'
    rw [hsum] at htxfee
    rw [spentValue, hkind.1, if_neg Bool.false_ne_true]
    linarith

/-- Transactions that are neither coinbase nor coinstake leave the mint as it is. -/
theorem forEach_mint (hplain : ∀ tx ∈ packages, tx.isCoinBase = false ∧ tx.isCoinStake = false)
    (hok : (forEach (connectTx env ctx pindex ancestors block)
      packages st).result = .ok ()) :
    connectMint (forEach (connectTx env ctx pindex ancestors block)
      packages st).state = connectMint st := by
  induction packages generalizing st with
  | nil => rfl
  | cons tx rest ih =>
    obtain ⟨hfirst, hrest⟩ := forEach_cons_eq_ok_iff.mp hok
    obtain ⟨hcoinbase, hstake⟩ := hplain tx (.head _)
    rw [forEach_cons, andThen_of_ok hfirst,
      ih (fun other hother => hplain other (.tail _ hother)) hrest,
      connectTx_mint hfirst, hcoinbase, hstake]
    exact add_zero _

/-- A block that `CreateNewBlock` fills with a coinstake and that passes the transaction loop:
an empty coinbase, the coinstake and the transactions of the pool.  The coins that the wallet
took are in the view as the wallet has them, and the fees are those that it was told. -/
structure CarriesStake (env : Env) (ctx : Circumstances) (ancestors : IndexChain)
    (txNew : CTransaction) (inputs : List COutput) (nFees : ℤ) (st : ConnectState)
    (coinbase : CTransaction) (packages : List CTransaction) : Prop where
  vtx : st.block.vtx = coinbase :: txNew :: packages
  isCoinBase : coinbase.isCoinBase = true
  reward : sumValues coinbase.vout = 0
  isCoinStake : txNew.isCoinStake = true
  plain : ∀ tx ∈ packages, tx.isCoinBase = false ∧ tx.isCoinStake = false
  coins : ∀ pcoin ∈ inputs, ((connectTx env ctx st.pindex ancestors st.block coinbase
    (loopInit st)).state.view.accessCoin pcoin.outpoint).out = pcoin.txout
  connects : (connectLoop env ctx ancestors st).result = .ok ()
  fees : (connectLoop env ctx ancestors st).state.nFees = nFees

/-- The mint of a block is what its coinstake pays out beyond its inputs. -/
theorem connectMint_eq {txNew coinbase : CTransaction} {inputs : List COutput} {nFees : ℤ}
    {st : ConnectState} (h : CarriesStake env ctx ancestors txNew inputs nFees st coinbase packages)
    (hvin : txNew.vin.map CTxIn.prevout = inputs.map COutput.outpoint) :
    connectMint (connectLoop env ctx ancestors st).state =
      sumValues txNew.vout - sumInputs inputs := by
  have hloop : connectLoop env ctx ancestors st =
      forEach (connectTx env ctx st.pindex ancestors st.block)
        (coinbase :: txNew :: packages) (loopInit st) := by
    unfold connectLoop
    rw [h.vtx]
  have hok := h.connects
  rw [hloop] at hok ⊢
  obtain ⟨hfirst, hothers⟩ := forEach_cons_eq_ok_iff.mp hok
  obtain ⟨hsecond, hpackages⟩ := forEach_cons_eq_ok_iff.mp hothers
  have hcoinbase := connectTx_mint hfirst
  have hstake := connectTx_mint hsecond
  rw [forEach_cons, andThen_of_ok hfirst, forEach_cons,
    andThen_of_ok hsecond, forEach_mint h.plain hpackages]
  -- the coinbase spends and pays nothing, and the coinstake spends the coins of the wallet
  have hnothing : spentValue (loopInit st).view coinbase = 0 := by
    unfold spentValue
    rw [if_pos h.isCoinBase]
  have hspent : spentValue (connectTx env ctx st.pindex ancestors st.block coinbase
      (loopInit st)).state.view txNew = sumInputs inputs := by
    unfold spentValue sumInputs
    rw [if_neg (Bool.eq_false_iff.mp (CTransaction.not_isCoinBase_of_isCoinStake h.isCoinStake))]
    generalize hview : (connectTx env ctx st.pindex ancestors st.block coinbase
      (loopInit st)).state.view = view
    have hcoins := h.coins
    rw [hview] at hcoins
    calc (txNew.vin.map fun input => (view.accessCoin input.prevout).out.value).sum
        = ((txNew.vin.map CTxIn.prevout).map fun prevout =>
            (view.accessCoin prevout).out.value).sum := by rw [List.map_map]; rfl
      _ = (inputs.map fun pcoin => (view.accessCoin pcoin.outpoint).out.value).sum := by
          rw [hvin, List.map_map]; rfl
      _ = (inputs.map fun pcoin => pcoin.txout.value).sum := by
          congr 1
          exact List.map_congr_left fun pcoin hpcoin => by rw [hcoins pcoin hpcoin]
  rw [h.isCoinBase, Bool.true_or, if_pos rfl, h.reward, hnothing] at hcoinbase
  rw [h.isCoinStake, Bool.or_true, if_pos rfl, hcoinbase, hspent] at hstake
  rw [hstake]
  have hstart : connectMint (loopInit st) = 0 := rfl
  rw [hstart]
  ring

/-- A coinstake that the wallet builds pays its inputs and the fees of the block less a fee
of its own that is not negative, so that the block mints no more than its fees. -/
theorem createCoinStake_conserves {attempts : ℕ} {created : CreatedStake}
    {inputs : List COutput} {nMinFee : ℤ} (hmoney : call.nFees ≤ MAX_MONEY)
    (h : createCoinStake? env stake wallet call attempts = some (.ok created))
    (hbuilt : created.built = some (inputs, nMinFee)) :
    created.txNew.vin.map CTxIn.prevout = inputs.map COutput.outpoint ∧
      sumValues created.txNew.vout = sumInputs inputs + call.nFees - nMinFee ∧
      0 ≤ nMinFee ∧
      ∀ (validator : Env) (ctx : Circumstances) (ancestors : IndexChain)
        (st : ConnectState) (coinbase : CTransaction) (packages : List CTransaction),
        CarriesStake validator ctx ancestors created.txNew inputs call.nFees st
          coinbase packages →
        connectMint (connectLoop validator ctx ancestors st).state ≤
          (connectLoop validator ctx ancestors st).state.nFees := by
  obtain ⟨plan, hplan, -, hrun⟩ := created_of_some h hbuilt
  obtain ⟨_, _, _, _, -, -, hallowed, -, hplanned⟩ := planned_of_prepareStake hplan
  have hfunded := hplanned.funded hallowed hmoney
  obtain ⟨hvin, hsum, hfee⟩ := run_pays hfunded.nonneg hfunded.le hrun
  rw [hfunded.nCredit_eq] at hsum
  refine ⟨hvin, hsum, hfee, ?_⟩
  intro validator ctx ancestors st coinbase packages hcarries
  calc connectMint (connectLoop validator ctx ancestors st).state
      = sumValues created.txNew.vout - sumInputs inputs := connectMint_eq hcarries hvin
    _ = call.nFees - nMinFee := by rw [hsum]; ring
    _ ≤ call.nFees := sub_le_self _ hfee
    _ = (connectLoop validator ctx ancestors st).state.nFees := hcarries.fees.symm

end Mint

namespace SmallNet

/-- The block with the late coinstake and a transaction of the pool, on top of the tip. -/
def lateState : ConnectState :=
  onTop { blank with
    view := ⟨fun outpoint =>
      if outpoint.hash = 3 then some ⟨⟨1010000, payToKeyHash 3⟩, false, false, 1, 0⟩
      else if outpoint = genesisPrevout 0 then some ⟨genesisOut, true, false, 0, 1700000000⟩
      else none, 77⟩ } 2
    ((mintAssembler false 1700000303 [pooledTx 1700000298]).fillBlock mintNode
      (mintCall 1700000303) lateStake)

theorem lateState_carries : CarriesStake mintNode ordinary
    [firstEntry.toCBlockIndex, genesisEntry.toCBlockIndex] lateStake.txNew [genesisCoin 0] 10000
    lateState (lateState.block.vtx.headD nullTx) [pooledTx 1700000298] where
  vtx := by decide +kernel
  isCoinBase := by decide +kernel
  reward := by decide +kernel
  isCoinStake := by decide +kernel
  plain := by decide +kernel
  coins := by decide +kernel
  connects := passed_iff.mp (by decide +kernel)
  fees := by decide +kernel

/-- The late coinstake takes the fee of the transaction of the pool and mints nothing else. -/
theorem lateStake_conserves :
    sumValues lateStake.txNew.vout = sumInputs [genesisCoin 0] + 10000 - 0 ∧
      connectMint (connectLoop mintNode ordinary
          [firstEntry.toCBlockIndex, genesisEntry.toCBlockIndex] lateState).state ≤
        (connectLoop mintNode ordinary
          [firstEntry.toCBlockIndex, genesisEntry.toCBlockIndex] lateState).state.nFees := by
  obtain ⟨-, hsum, -, hmint⟩ := @createCoinStake_conserves mintNode mintRules
    (mintWallet [genesisCoin 0] [])
    ((mintAssembler false 1700000303 [pooledTx 1700000298]).stakeCall mintNode
      (mintCall 1700000303)) 1 lateStake [genesisCoin 0] 0 (by decide +kernel)
    (by decide +kernel) rfl
  exact ⟨hsum, hmint _ _ _ _ _ _ lateState_carries⟩

end SmallNet

end Patchcoin
