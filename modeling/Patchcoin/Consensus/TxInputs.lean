import Patchcoin.Chain.Index
import Patchcoin.Lib.Outcome

/-!
# Spending coins

The view of the unspent coins, the checks on the inputs of a transaction and
the update of the view when the transaction is applied.
-/

namespace Patchcoin

/-! ## The coin view -/

/-- `CCoinsViewCache`, as the coins it finds and the block it stands for. -/
structure CCoinsView where
  coins : COutPoint → Option Coin
  bestBlock : Uint256

namespace CCoinsView

variable (view : CCoinsView)

def haveInputs (tx : CTransaction) : Bool :=
  tx.isCoinBase || tx.vin.all fun input => (view.coins input.prevout).isSome

/-- The empty coin that `AccessCoin` returns for a missing or spent output. -/
def emptyCoin : Coin := ⟨⟨-1, ⟨[]⟩⟩, false, false, 0, 0⟩

def accessCoin (prevout : COutPoint) : Coin := (view.coins prevout).getD emptyCoin

/-- `SpendCoin`: `none` where it returns false, because there is no such coin. -/
def spendCoin (prevout : COutPoint) : Option CCoinsView :=
  if (view.coins prevout).isNone then none
  else some { view with
    coins := fun outpoint => if outpoint = prevout then none else view.coins outpoint }

/-- `AddCoin`: `none` where it throws because it would overwrite an unspent coin. -/
def addCoin (outpoint : COutPoint) (coin : Coin) (possible_overwrite fSkipZeroValue : Bool) :
    Option CCoinsView :=
  if coin.out.scriptPubKey.isUnspendable then some view
  else if fSkipZeroValue && coin.out.nValue == 0 then some view
  else if !possible_overwrite && (view.coins outpoint).isSome then none
  else some { view with
    coins := fun other => if other = outpoint then some coin else view.coins other }

/-- The loop of `AddCoins` over the outputs from position `n` on. -/
def addCoins (txid : Uint256) (coin : CTxOut → Coin) (overwrite fSkipZeroValue : Bool) :
    CCoinsView → List CTxOut → ℕ → Option CCoinsView
  | view, [], _ => some view
  | view, out :: rest, n =>
    match view.addCoin ⟨txid, UInt32.ofNat n⟩ (coin out) overwrite fSkipZeroValue with
    | none => none
    | some view => addCoins txid coin overwrite fSkipZeroValue view rest (n + 1)

def spendCoins : CCoinsView → List CTxIn → Option CCoinsView
  | view, [] => some view
  | view, input :: rest =>
    match view.spendCoin input.prevout with
    | none => none
    | some view => spendCoins view rest

/-- `UpdateCoins`: the inputs are spent and the outputs added. -/
def updateCoins (hash256 : List UInt8 → Uint256) (tx : CTransaction) (nHeight : ℕ)
    (fSkipZeroValue : Bool) : Except BlockFail CCoinsView :=
  match if tx.isCoinBase then some view else spendCoins view tx.vin with
  -- `assert(is_spent)`
  | none => .error .aborted
  | some spent =>
    let coin : CTxOut → Coin := fun out =>
      ⟨out, tx.isCoinBase, tx.isCoinStake, nHeight, tx.nTime⟩
    match addCoins (tx.getHash hash256) coin tx.isCoinBase fSkipZeroValue spent tx.vout 0 with
    | none => .error .thrown
    | some view => .ok view

end CCoinsView

/-! ## Inputs -/

section Inputs

variable (env : Env) (view : CCoinsView)

/-- `CheckGenesisKeyInput`. -/
def checkGenesisKeyInput (scriptPubKey : CScript) (tx : CTransaction) (nTimeTx : UInt32) :
    Except TxFail Unit :=
  if scriptPubKey ≠ env.params.genesisPubKey then .ok ()
  else if tx.isCoinStake then .ok ()
  else if (nTimeTx.toNat : ℤ) - env.params.genesisNTime < env.params.nStakeGenesisLockTime then
    txConsensus "bad-txns-genesis-input-not-coinstake"
  else .ok ()

/-- `GetMinFee`. -/
def getMinFee (params : Params) (nBytes : ℕ) (nTime : UInt32) : ℤ :=
  let nMinFee : ℤ := if isProtocolV07 params nTime.toNat || nTime == 0 then
      if nBytes < 100 then MIN_TX_FEE else nBytes * (PERKB_TX_FEE / 1000)
    else (1 + nBytes / 1000) * PERKB_TX_FEE
  if !moneyRange nMinFee then MAX_MONEY else nMinFee

/-- Whether `GetCoinAge` succeeds; `CheckTxInputs` does not use the age itself. -/
def getCoinAge (tx : CTransaction) (nTimeTx : UInt32) : Bool :=
  tx.isCoinBase || tx.vin.all fun input =>
    match view.coins input.prevout with
    | none => true
    | some coin =>
      decide (coin.nTime ≤ nTimeTx) &&
        match env.host.txindex input.prevout.hash with
        | none => false
        | some (_, txPrev) => txPrev.getHash env.host.hash256 == input.prevout.hash

/-- The body of the input loop of `CheckTxInputs`. -/
def checkTxInput (tx : CTransaction) (nSpendHeight : ℕ) (nTimeTx : UInt32) (prevout : COutPoint)
    (nValueIn : ℤ) : Except TxFail ℤ :=
  let coin := view.accessCoin prevout
  let is_genesis_coin := prevout.hash == env.params.hashGenesisTx
  let requiredMaturity : ℤ := if is_genesis_coin then 0 else env.params.nCoinbaseMaturity
  if is_genesis_coin &&
      coin.out.value != env.params.genesisValue.tdiv env.params.genesisOutputs then
    txConsensus "bad-txns-genesis-coin-value-too-large"
  else if coin.fCoinBase && !is_genesis_coin then txConsensus "bad-txns-coinbase-as-input"
  else if coin.fCoinStake && decide ((nSpendHeight : ℤ) - coin.nHeight < requiredMaturity) then
    .error (.invalid .TX_PREMATURE_SPEND "bad-txns-premature-spend-of-coinbase/coinstake")
  else if nTimeTx < coin.nTime then txConsensus "bad-txns-spent-too-early"
  else match checkGenesisKeyInput env coin.out.scriptPubKey tx nTimeTx with
    | .error failure => .error failure
    | .ok () =>
      let nValueIn := nValueIn + coin.out.value
      if !moneyRange coin.out.value || !moneyRange nValueIn then
        txConsensus "bad-txns-inputvalues-outofrange"
      else .ok nValueIn

def checkTxInputLoop (tx : CTransaction) (nSpendHeight : ℕ) (nTimeTx : UInt32) :
    List CTxIn → ℤ → Except TxFail ℤ
  | [], nValueIn => .ok nValueIn
  | input :: rest, nValueIn =>
    match checkTxInput env view tx nSpendHeight nTimeTx input.prevout nValueIn with
    | .error failure => .error failure
    | .ok nValueIn => checkTxInputLoop tx nSpendHeight nTimeTx rest nValueIn

/-- The end of `CheckTxInputs`: the fee of the transaction. -/
def checkTxFee (tx : CTransaction) (nTimeTx : UInt32) (nValueIn : ℤ) : Except TxFail ℤ :=
  if tx.isCoinStake then
    if getCoinAge env view tx nTimeTx then .ok 0
    else txConsensus "unable to get coin age for coinstake"
  else match tx.getValueOut with
    | none => .error .thrown
    | some value_out =>
      if nValueIn < value_out then txConsensus "bad-txns-in-belowout"
      else
        let txfee_aux := nValueIn - value_out
        if !moneyRange txfee_aux then txConsensus "bad-txns-fee-outofrange"
        else if txfee_aux < getMinFee env.params (txSize tx) nTimeTx then
          txConsensus "bad-txns-fee-not-enough"
        else .ok txfee_aux

/-- `Consensus::CheckTxInputs`: the fee, which stays zero for a coinstake. -/
def checkTxInputs (tx : CTransaction) (nSpendHeight : ℕ) (nTimeTx : UInt32) : Except TxFail ℤ :=
  if !view.haveInputs tx then
    .error (.invalid .TX_MISSING_INPUTS "bad-txns-inputs-missingorspent")
  else match checkTxInputLoop env view tx nSpendHeight nTimeTx tx.vin 0 with
    | .error failure => .error failure
    | .ok nValueIn => checkTxFee env view tx nTimeTx nValueIn

end Inputs

variable {env : Env} {view : CCoinsView} {tx : CTransaction} {nTimeTx : UInt32}

/-- A coin of the genesis key is spent by a coinstake, or after the lock. -/
theorem checkGenesisKeyInput_eq_ok_iff {script : CScript} :
    checkGenesisKeyInput env script tx nTimeTx = .ok () ↔
      script ≠ env.params.genesisPubKey ∨ tx.isCoinStake = true ∨
        env.params.nStakeGenesisLockTime ≤ (nTimeTx.toNat : ℤ) - env.params.genesisNTime := by
  unfold checkGenesisKeyInput
  split_ifs with hscript hstake hlocked
  · simp [hscript]
  · simp [hstake]
  · simp only [txConsensus, reduceCtorEq, false_iff, not_or, not_le]
    exact ⟨hscript, hstake, hlocked⟩
  · simp only [true_iff]
    exact .inr (.inr (not_lt.mp hlocked))

theorem checkGenesisKeyInput_of_checkTxInputs {nSpendHeight : ℕ} {txfee : ℤ}
    (h : checkTxInputs env view tx nSpendHeight nTimeTx = .ok txfee) :
    ∀ input ∈ tx.vin, checkGenesisKeyInput env (view.accessCoin input.prevout).out.scriptPubKey
      tx nTimeTx = .ok () := by
  -- one round of the loop
  have hstep {prevout : COutPoint} {nValueIn nValueIn' : ℤ}
      (hround : checkTxInput env view tx nSpendHeight nTimeTx prevout nValueIn = .ok nValueIn') :
      checkGenesisKeyInput env (view.accessCoin prevout).out.scriptPubKey tx nTimeTx = .ok () := by
    cases hkey : checkGenesisKeyInput env (view.accessCoin prevout).out.scriptPubKey tx nTimeTx with
    | ok value => rfl
    | error failure =>
      unfold checkTxInput at hround
      simp only [hkey, txConsensus] at hround
      split_ifs at hround
  have hloop (vin : List CTxIn) (nValueIn total : ℤ)
      (hrounds : checkTxInputLoop env view tx nSpendHeight nTimeTx vin nValueIn = .ok total) :
      ∀ input ∈ vin, checkGenesisKeyInput env
        (view.accessCoin input.prevout).out.scriptPubKey tx nTimeTx = .ok () := by
    induction vin generalizing nValueIn with
    | nil => simp
    | cons input rest ih =>
      unfold checkTxInputLoop at hrounds
      cases hround : checkTxInput env view tx nSpendHeight nTimeTx input.prevout nValueIn with
      | error failure => rw [hround] at hrounds; exact absurd hrounds (by simp)
      | ok nValueIn' =>
        rw [hround] at hrounds
        exact List.forall_mem_cons.mpr ⟨hstep hround, ih nValueIn' hrounds⟩
  unfold checkTxInputs at h
  split_ifs at h
  cases hrounds : checkTxInputLoop env view tx nSpendHeight nTimeTx tx.vin 0 with
  | error failure => rw [hrounds] at h; exact absurd h (by simp)
  | ok total => exact hloop tx.vin 0 total hrounds

end Patchcoin
