import Patchcoin.Chain.Index

/-!
# Claims

A claim asks for the payout that belongs to a source script.  What a source may
receive is fixed by its class, which `init` reads off the snapshot:

* a *compatible* source is in the snapshot and signs a message,
* an *incompatible* source is in the snapshot and signs a dummy transaction,
* every other source counts as a Bitcoin script (`m_is_btc`), whose balance and
  signature are asked of outside services, if the node has them enabled.

`isValid` is the check that the node runs on a claim wherever it comes from.
It is a `const` method that writes one `mutable` field, the cached answer of
the signature service, so the model returns the claim next to the verdict.
-/

namespace Patchcoin

def MAX_CLAIM_REWARD : ℤ := 50000 * COIN

structure Claim where
  m_claim : CClaim
  m_source_address : String := ""
  m_bitcoin_source_address : String := ""
  m_target_address : String := ""
  m_signature_string : String := ""
  /-- Whether `snapshotIt` points into the snapshot. -/
  snapshotIt : Bool := false
  incompatibleSnapshotIt : Bool := false
  source : Option CScript := none
  m_peercoin_balances : List ℤ := []
  m_eligible : ℤ := 0
  MAX_POSSIBLE_OUTPUTS : ℕ := 0
  MAX_OUTPUTS : ℕ := 0
  m_init : Bool := false
  m_compatible : Bool := false
  m_is_btc : Bool := false
  m_electrum_result : Bool := false
  nTime : ℤ := 0
  m_seen : Bool := false
  nTotalReceived : ℤ := 0
  deriving DecidableEq, Repr

/-! ## Amounts -/

/-- `SnapshotManager::CalculateEligible`: `none` where it returns false. -/
def calculateEligible (balance : ℤ) : Option ℤ :=
  if !moneyRange balance then none
  else
    let eligible := min (balance * 10) MAX_CLAIM_REWARD
    if !moneyRange eligible then none else some eligible

def MAX_BTC_SATOSHI : ℤ := 21000000 * 100000000

/-- `SnapshotManager::CalculateEligibleBTC`: `none` where it returns false. -/
def calculateEligibleBTC (balance : ℤ) : Option ℤ :=
  if balance < 0 ∨ MAX_BTC_SATOSHI < balance then none
  else
    let eligible := if MAX_CLAIM_REWARD / 50 < balance then MAX_CLAIM_REWARD else balance * 50
    if !moneyRange eligible then none else some eligible

/-- The end of `GetEligible`: failures and amounts that are too large count as zero. -/
def capEligible : Option ℤ → ℤ
  | none => 0
  | some eligible =>
    if !moneyRange eligible || decide (MAX_CLAIM_REWARD < eligible) then 0 else eligible

/-- The number of genesis outputs that an amount takes, rounded up.  The source makes two
divisions of doubles.  On its networks a genesis output is a whole number of coins and the
result is this quotient; other parameters could be rounded differently. -/
def genesisOutputsFor (params : Params) (amount : ℤ) : ℕ :=
  ((amount * params.genesisOutputs + params.genesisValue - 1) / params.genesisValue).toNat

/-- What `Init` stores in `MAX_POSSIBLE_OUTPUTS`. -/
def maxPossibleOutputs (params : Params) : ℕ :=
  min 20 (genesisOutputsFor params MAX_CLAIM_REWARD) + 4

namespace Claim

variable (env : Env) (claim : Claim)

/-- `GetSource`: `none` is the dereference of a null pointer. -/
def getSource? : Option CScript :=
  if claim.m_is_btc then some claim.m_claim.source else claim.source

def getSource : CScript := claim.getSource?.getD ⟨[]⟩

def getTarget : CScript := claim.m_claim.target

def getPeercoinBalance : ℤ :=
  let balance := claim.m_peercoin_balances.sum
  if moneyRange balance then balance else 0

def getBitcoinBalance : ℤ :=
  let balance := match env.options.lookup with
    | some getBalance => getBalance claim.m_bitcoin_source_address
    | none => 0
  if moneyRange balance then balance else 0

def getEligible : ℤ :=
  if 0 < claim.m_eligible then claim.m_eligible
  else capEligible
    (if claim.m_is_btc then calculateEligibleBTC (claim.getBitcoinBalance env)
      else calculateEligible claim.getPeercoinBalance)

def getMaxOutputs : ℕ :=
  min (genesisOutputsFor env.params (claim.getEligible env) + 4) claim.MAX_POSSIBLE_OUTPUTS

/-! ## Construction -/

/-- `SnapshotIsValid`. -/
def snapshotIsValid : Bool :=
  env.snapshot.hashScripts == env.params.hashPeercoinSnapshot &&
    !env.snapshot.scriptPubKeys.isEmpty && !env.snapshot.incompatibleScriptPubKeys.isEmpty

/-- The class of the source: the fields that `Init` reads off the snapshot. -/
def classify : Claim :=
  match env.snapshot.scriptPubKeys[claim.m_claim.source]? with
  | some balance =>
    { claim with
      snapshotIt := true
      source := some claim.m_claim.source
      m_peercoin_balances := [balance]
      m_signature_string := env.host.encodeBase64 claim.m_claim.signature
      m_compatible := true }
  | none =>
    match env.snapshot.incompatibleScriptPubKeys[claim.m_claim.source]? with
    | some utxo =>
      { claim with
        incompatibleSnapshotIt := true
        source := some claim.m_claim.source
        m_peercoin_balances := utxo.map fun entry => entry.2.out.value
        m_signature_string := env.host.encodeHexTx claim.m_claim.dummyTx
        m_compatible := false }
    | none =>
      { claim with
        m_is_btc := true
        m_signature_string := env.host.encodeBase64 claim.m_claim.signature
        m_compatible := false }

/-- The addresses that `Init` derives from the scripts. -/
def setAddresses : Claim :=
  { claim with
    m_source_address := env.getAddressFromScript claim.m_claim.source
    m_bitcoin_source_address := env.getBtcAddressFromScript claim.m_claim.source
    m_target_address := env.getAddressFromScript claim.m_claim.target }

def hasEmptyAddress : Bool :=
  claim.m_source_address == "" || claim.m_bitcoin_source_address == "" ||
    claim.m_target_address == ""

/-- The end of `Init`: the eligible amount and the limits on the number of payouts. -/
def setLimits : Claim :=
  let claim := { claim with m_eligible := claim.getEligible env }
  let claim := { claim with MAX_POSSIBLE_OUTPUTS := maxPossibleOutputs env.params }
  { claim with MAX_OUTPUTS := claim.getMaxOutputs env, m_init := true }

/-- `Init`, on a claim whose other fields are null. -/
def init : Claim :=
  if !snapshotIsValid env then claim
  else if (claim.setAddresses env).hasEmptyAddress then claim.setAddresses env
  else ((claim.setAddresses env).classify env).setLimits env

/-- The constructor `Claim(const CClaim&)`. -/
def ofCClaim (m_claim : CClaim) : Claim := init env { m_claim }

/-! ## Payouts so far -/

/-- The walk of `GetTotalReceived` over an entry and its ancestors. -/
def receivedLoop : IndexChain → ℤ → ℕ → ℤ × ℕ
  | [], received, outputs => (received, outputs)
  | pindex :: rest, received, outputs =>
    match pindex.nClaims[claim.getSource]? with
    | some value => receivedLoop rest (received + value) (outputs + 1)
    | none => receivedLoop rest received outputs

/-- `GetTotalReceived`: the verdict, and what it leaves in its two reference
arguments. -/
def getTotalReceived (chain : IndexChain) (received : ℤ) (outputs : ℕ) : Bool × ℤ × ℕ :=
  if !claim.m_is_btc && decide (claim.getEligible env ≤ 0) then (false, received, outputs)
  else
    let (received, outputs) := claim.receivedLoop chain received outputs
    (!(!claim.m_is_btc && decide (claim.m_eligible < received)) &&
      !decide (claim.MAX_POSSIBLE_OUTPUTS < outputs), received, outputs)

/-! ## Validity -/

/-- `Claim::ClaimVerificationResult`. -/
inductive VerificationResult where
  | ERR_NOT_INITIALIZED
  | ERR_SNAPSHOT_MISMATCH
  | ERR_SIZE_MISMATCH
  | ERR_EMPTY_FIELDS
  | ERR_SOURCE_EQUALS_TARGET
  | ERR_SOURCE_SCRIPT_NOT_FOUND
  | ERR_DECODE_SCRIPT_FAILURE
  | ERR_SIGNATURE_VERIFICATION_FAILED
  | ERR_TX_VERIFICATION_FAILED
  | ERR_BALANCE_OUT_OF_RANGE
  | ERR_RECEIVED_ABOVE_ELIGIBLE
  | ERR_DUMMY_INPUT_SIZE
  | ERR_DUMMY_OUTPUT_SIZE
  | ERR_DUMMY_VALUE_RANGE
  | ERR_DUMMY_ADDRESS_MISMATCH
  | ERR_DUMMY_PREVOUT_NOT_FOUND
  | ERR_DUMMY_INPUT_VALUE_MISMATCH
  | ERR_DUMMY_SIG_FAIL
  | OK
  deriving DecidableEq, Repr

def isSourceTarget : Bool := claim.getSource == claim.getTarget

def isSourceTargetAddress : Bool := claim.m_source_address == claim.m_target_address

/-- `GetBaseSize`: the size of the claim on the network. -/
def getBaseSize : ℕ := (serClaim claim.m_claim).length

def CLAIM_SIZE : ℕ := if claim.m_compatible then 132 else 1000

def dummyTxIsNull : Bool := claim.m_claim.dummyTx.vin.isEmpty && claim.m_claim.dummyTx.vout.isEmpty

/-- `VerifyDummyTx`. -/
def verifyDummyTx : VerificationResult :=
  match claim.m_claim.dummyTx.vin with
  | [input] =>
    match claim.m_claim.dummyTx.vout with
    | [out] =>
      if !moneyRange out.value then .ERR_DUMMY_VALUE_RANGE
      else if env.getAddressFromScript out.scriptPubKey ≠ claim.m_target_address ∨
          out.scriptPubKey ≠ claim.getTarget then .ERR_DUMMY_ADDRESS_MISMATCH
      else
        let utxo := env.snapshot.incompatibleScriptPubKeys.getD claim.getSource []
        match utxo.find? fun entry => entry.1 == input.prevout with
        | none => .ERR_DUMMY_PREVOUT_NOT_FOUND
        | some (_, coin) =>
          if coin.out.value = -1 then .ERR_DUMMY_PREVOUT_NOT_FOUND
          else if coin.out.nValue ≠ out.nValue then .ERR_DUMMY_INPUT_VALUE_MISMATCH
          else if !env.host.verifyDummyScript claim.m_claim.dummyTx coin.out then
            .ERR_DUMMY_SIG_FAIL
          else .OK
    | _ => .ERR_DUMMY_OUTPUT_SIZE
  | _ => .ERR_DUMMY_INPUT_SIZE

/-- The tests of `IsValid` before it asks for a signature. -/
def checkFields : VerificationResult :=
  if !claim.m_init then .ERR_NOT_INITIALIZED
  else if !snapshotIsValid env then .ERR_SNAPSHOT_MISMATCH
  else if !claim.m_claim.signature.isEmpty && !claim.dummyTxIsNull then .ERR_NOT_INITIALIZED
  else if claim.m_compatible && claim.getBaseSize != claim.CLAIM_SIZE then .ERR_SIZE_MISMATCH
  else if !claim.m_compatible && decide (claim.CLAIM_SIZE < claim.getBaseSize) then
    .ERR_SIZE_MISMATCH
  else if claim.m_source_address == "" || claim.m_target_address == "" then .ERR_EMPTY_FIELDS
  else if (claim.m_compatible || claim.m_is_btc) && claim.m_signature_string == "" then
    .ERR_EMPTY_FIELDS
  else if !claim.m_compatible && !claim.m_is_btc && claim.dummyTxIsNull then .ERR_EMPTY_FIELDS
  else if claim.m_is_btc && !claim.dummyTxIsNull then .ERR_EMPTY_FIELDS
  else if claim.isSourceTarget || claim.isSourceTargetAddress then .ERR_SOURCE_EQUALS_TARGET
  else if claim.m_compatible && !claim.m_is_btc && !claim.snapshotIt then
    .ERR_SOURCE_SCRIPT_NOT_FOUND
  else if !claim.m_compatible && !claim.m_is_btc && !claim.incompatibleSnapshotIt then
    .ERR_SOURCE_SCRIPT_NOT_FOUND
  else if !claim.m_is_btc && ((env.getScriptFromAddress claim.m_source_address).empty ||
      claim.source.isNone || env.getAddressFromScript (claim.source.getD ⟨[]⟩) == "") then
    .ERR_DECODE_SCRIPT_FAILURE
  else if claim.m_is_btc && ((env.getScriptFromBtcAddress claim.m_bitcoin_source_address).empty ||
      env.getBtcAddressFromScript claim.getSource == "") then .ERR_DECODE_SCRIPT_FAILURE
  else if (env.getScriptFromAddress claim.m_target_address).empty then .ERR_DECODE_SCRIPT_FAILURE
  else .OK

/-- The balance test and the signature of a claim on the snapshot. -/
def checkSnapshotProof : VerificationResult :=
  if claim.m_is_btc && (env.options.lookup.map fun getBalance =>
      decide (getBalance claim.m_bitcoin_source_address ≤ 0)).getD false then
    .ERR_BALANCE_OUT_OF_RANGE
  else if claim.m_compatible && !claim.m_is_btc &&
      !env.host.messageVerify claim.m_source_address claim.m_signature_string
        claim.m_target_address then .ERR_SIGNATURE_VERIFICATION_FAILED
  else if !claim.m_compatible && !claim.m_is_btc && claim.verifyDummyTx env != .OK then
    .ERR_TX_VERIFICATION_FAILED
  else .OK

/-- Ask the signature service about a Bitcoin claim, unless it has said yes before. -/
def askElectrum : Claim :=
  if claim.m_is_btc && !claim.m_electrum_result && env.isLookupEnabled then
    { claim with
      m_electrum_result := env.options.electrumVerify claim.m_bitcoin_source_address
        claim.m_signature_string claim.m_target_address }
  else claim

/-- The tests of `IsValid` on amounts. -/
def checkAmounts : VerificationResult :=
  if !claim.m_is_btc && !moneyRange claim.getPeercoinBalance then .ERR_BALANCE_OUT_OF_RANGE
  else if claim.m_is_btc && !moneyRange (claim.getBitcoinBalance env) then
    .ERR_BALANCE_OUT_OF_RANGE
  else if MAX_CLAIM_REWARD < claim.nTotalReceived then .ERR_RECEIVED_ABOVE_ELIGIBLE
  else if claim.m_is_btc && !env.isLookupEnabled then .OK
  else if !moneyRange (claim.getEligible env) then .ERR_BALANCE_OUT_OF_RANGE
  else if claim.getEligible env < claim.nTotalReceived then .ERR_RECEIVED_ABOVE_ELIGIBLE
  else .OK

/-- The signature service was asked and says no. -/
def refused : Bool :=
  claim.m_is_btc && !claim.m_electrum_result && env.isLookupEnabled &&
    !(claim.askElectrum env).m_electrum_result

/-- `IsValid`: the claim with the cached answer it now holds, and the verdict. -/
def isValid : Claim × VerificationResult :=
  if claim.checkFields env != .OK then (claim, claim.checkFields env)
  else if claim.checkSnapshotProof env != .OK then (claim, claim.checkSnapshotProof env)
  else if claim.refused env then (claim.askElectrum env, .ERR_SIGNATURE_VERIFICATION_FAILED)
  else (claim.askElectrum env, (claim.askElectrum env).checkAmounts env)

end Claim

end Patchcoin
