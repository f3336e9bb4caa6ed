import Patchcoin.Chain.DisconnectBlock
import Patchcoin.Lib.Loop
import Patchcoin.Primitives.Read
import Patchcoin.Stake.TxCache

/-!
# Making a coinstake

`CWallet::CreateCoinStake` looks through the coins of the wallet for one whose kernel meets
the target, now or some seconds ago.  If the coin belongs to the genesis key, the coinstake
pays the claims that have not received all they may; otherwise further coins of the same
key are added and the sum is split.

The outputs depend on the fee, the fee on the size, and the size on the outputs and the
signatures.  So the last part is a loop: outputs are made, the transaction is signed, and
if the fee was too low or an output did not fit, the loop starts again with the fee that
the signed transaction would have needed.

What the source computes with floating point numbers (the target of the outputs and their
number) is an argument here or taken exactly.
-/

namespace Patchcoin

/-! ## The wallet -/

/-- A coin that may be staked. -/
structure COutput where
  outpoint : COutPoint
  txout : CTxOut
  value_nonneg : 0 ≤ txout.value
  deriving DecidableEq

structure CWalletTx where
  tx : CTransaction
  isAbandoned : Bool

/-- The wallet, as `CreateCoinStake` reads it. -/
structure CWallet where
  /-- coinstakes that were signed in advance, in the order of their times -/
  m_coinstakes : List (UInt32 × CTransaction)
  /-- `GetBalance(*this).m_mine_trusted` -/
  nBalance : ℤ
  nBalance_le : nBalance ≤ MAX_MONEY
  /-- `-reservebalance`, if it is given, and what it is parsed as -/
  reservebalance : Option (Option ℕ)
  /-- The coins that `SelectCoins` picks out for an amount. -/
  selectCoins : ℤ → Option (List COutput)
  mapWallet : List CWalletTx
  /-- The public key with a hash. -/
  getPubKey : List UInt8 → Option (List UInt8)
  m_combine_coins : Bool
  m_split_coins : Bool
  /-- `-maxmintingutxos` -/
  maxMintingUtxos : ℕ
  maxMintingUtxos_pos : 0 < maxMintingUtxos
  /-- The scripts and witnesses of the inputs of a coinstake, at an attempt to sign it. -/
  sign : ℕ → CTransaction → Option (ℕ → CScript × List (List UInt8))
  /-- `std::sort` by time, which may put claims of the same time in any order. -/
  sort : List Claim → List Claim
  sort_perm : ∀ claims, (sort claims).Perm claims
  sort_sorted : ∀ claims, (sort claims).Pairwise fun a b => a.nTime ≤ b.nTime

/-- What `CreateCoinStake` is called with, and what it reads of the node. -/
structure MintCall where
  /-- `txNew.nTime`: a new transaction has the time of its making -/
  now : UInt32
  /-- `GetTime()` -/
  time : ℤ
  nBits : UInt32
  nSearchInterval : ℤ
  nFees : ℤ
  nBlockTx : ℕ
  /-- the public key of `destination` -/
  mintKey : Option (List UInt8)
  g_txindex : Option TxIndex
  view : StakeView
  coinsTip : CCoinsView
  g_claims : ClaimPool
  /-- `SecurityToOptimalFraction(securityLevel, isTestnet) * supply` -/
  optimalAmount : ℤ
  /-- what is read as the script of `txNew.vout[1]` if there is no such output -/
  beyond : CScript

/-- The error that `CreateCoinStake` logs before it returns false. -/
def stakeError {α : Type} (reason : String) : Except BlockFail α :=
  .error (.error ("CreateCoinStake : " ++ reason))

/-- The failures of the kernel functions that leave the caller too. -/
def KernelFail.escapes : KernelFail → Option BlockFail
  | .refused .thrown => some .thrown
  | .refused .aborted => some .aborted
  | .refused _ => none
  | .outOfBounds => some .aborted

namespace CWallet

/-- The loop of `CalculateReceived` over the outputs. -/
def receivedIn (target : CScript) : List CTxOut → ℤ → Option ℤ
  | [], nTotalReceived => some nTotalReceived
  | txout :: rest, nTotalReceived =>
    if txout.scriptPubKey = target then
      if !moneyRange (nTotalReceived + txout.value) then none
      else receivedIn target rest (nTotalReceived + txout.value)
    else receivedIn target rest nTotalReceived

/-- `CalculateReceived`: what the transactions of the wallet pay to a script. -/
def calculateReceived (wallet : CWallet) (target : CScript) : Option ℤ :=
  receivedIn target ((wallet.mapWallet.filter fun wtx => !wtx.isAbandoned).flatMap
    fun wtx => wtx.tx.vout) 0

end CWallet

section

variable (env : Env) (stake : StakeRules) (wallet : CWallet) (call : MintCall)

/-! ## The kernel -/

def payToPubKey (key : List UInt8) : CScript := ((⟨[]⟩ : CScript).pushData key).pushOp OP_CHECKSIG

/-- The script that the coinstake pays to for a kernel, and the script of the extra output
with the key of the minter. -/
def kernelScripts (scriptPubKeyKernel : CScript) : Option (CScript × Option CScript) :=
  let solved := solver scriptPubKeyKernel
  match solved.1 with
  | .PUBKEYHASH => (wallet.getPubKey (solved.2.headD [])).map fun key => (payToPubKey key, none)
  | .WITNESS_V0_KEYHASH =>
    (wallet.getPubKey (solved.2.headD [])).map fun key => (payToPubKey key, none)
  | .PUBKEY => some (scriptPubKeyKernel, none)
  | .WITNESS_V1_TAPROOT =>
    call.mintKey.map fun key => (scriptPubKeyKernel, some (payToPubKey key))
  | _ => none

/-- A kernel that was found, so many seconds before the call. -/
structure FoundKernel where
  kernel : COutput
  n : ℕ
  scriptPubKeyOut : CScript
  /-- the output with the key of the minter (`bMinterKey`) -/
  minterOut : Option CScript

/-- The search backward in time with one coin. -/
def searchTimes (pcoin : COutput) (postx : CDiskTxPos) (header : CBlockHeader)
    (tx : CTransaction) : List ℕ → Except BlockFail (Option FoundKernel)
  | [] => .ok none
  | n :: rest =>
    match checkStakeKernelHash env stake call.view call.nBits call.view.m_chain header
        (postx.nTxOffset + NORMAL_SERIALIZE_SIZE) tx pcoin.outpoint
        (call.now - UInt32.ofNat n) with
    | .error failure =>
      match failure.escapes with
      | some failure => .error failure
      | none => searchTimes pcoin postx header tx rest
    | .ok _ => .ok ((kernelScripts wallet call pcoin.txout.scriptPubKey).map
        fun scripts => ⟨pcoin, n, scripts.1, scripts.2⟩)

def nMaxStakeSearchInterval : ℕ := 60

/-- The loop over the coins until a kernel is found. -/
def searchKernel (g_txindex : TxIndex) : List COutput → Except BlockFail (Option FoundKernel)
  | [] => .ok none
  | pcoin :: rest =>
    match g_txindex.findTxPosition pcoin.outpoint.hash with
    | none => searchKernel g_txindex rest
    | some postx =>
      match g_txindex.readTx pcoin.outpoint.hash with
      | none => .error (.error "deserialize or I/O error in CreateCoinStake()")
      | some (_, header, tx) =>
        if ((call.now - UInt32.ofNat nMaxStakeSearchInterval).toNat : ℤ) <
            header.nTime.toNat + env.params.nStakeMinAge then searchKernel g_txindex rest
        else match searchTimes env stake wallet call pcoin postx header tx
            (List.range (min call.nSearchInterval nMaxStakeSearchInterval).toNat) with
          | .error failure => .error failure
          | .ok (some found) => .ok (some found)
          | .ok none => searchKernel g_txindex rest

/-! ## Claims -/

/-- The claims of the pool that may receive more.  Bitcoin claims wait for a date. -/
def unpaidClaims : List Claim :=
  (call.g_claims.toList.map Prod.snd).filter fun claim =>
    decide ((claim.getTotalReceived env call.view.m_chain 0 0).2.1 < claim.getEligible env) &&
      (!claim.m_is_btc || decide (1749146400 < call.time))

/-- The tests on the claims that were gathered. -/
def checkUnpaidClaims : List Claim → Except BlockFail Unit
  | [] => .ok ()
  | claim :: rest =>
    if (claim.isValid env).2 ≠ .OK then stakeError "invalid claim found"
    else match wallet.calculateReceived claim.getTarget with
      | none => stakeError "unable to calculate claim total received"
      | some nTotalReceived =>
        if claim.getEligible env < nTotalReceived then
          stakeError "claim received too many coins"
        else if !(moneyRange (claim.getEligible env) && moneyRange nTotalReceived) then
          stakeError "claim eligible or total received out of range"
        else checkUnpaidClaims rest

/-- Whether a claim is left in the list.  The answer of the signature service that
`IsValid` keeps in the claim is asked for again here, and is the same. -/
def staysUnpaid (claim : Claim) : Bool :=
  decide ((claim.isValid env).2 = .OK) &&
    match wallet.calculateReceived claim.getTarget with
    | none => false
    | some nTotalReceived => decide (nTotalReceived < claim.getEligible env)

/-- The claims that the coinstake is to pay. -/
def gatherClaims (genesis_key_held : Bool) : Except BlockFail (List Claim) :=
  if call.nBlockTx = 0 ∧ genesis_key_held = true then
    let claims := unpaidClaims env call
    if claims = [] ∧ (call.view.m_chain.head?.map CBlockIndex.nHeight).getD 0 = 0 then
      .error .silent
    else match checkUnpaidClaims env wallet (wallet.sort claims) with
      | .error failure => .error failure
      | .ok () => .ok ((wallet.sort claims).filter (staysUnpaid env wallet))
  else .ok []

/-! ## Inputs -/

def MIN_TARGET_OUTPUT_AMOUNT : ℤ := 10 * COIN
def RECOMBINE_DIVISOR : ℤ := 3
def MAX_COINSTAKE_INPUTS : ℕ := 4

/-- Whether the balance would be split into more outputs than the option allows. -/
def constrainToMaxUtxos (nAllowedBalance : ℤ) : Bool :=
  decide ((wallet.maxMintingUtxos : ℤ) <
    nAllowedBalance.tdiv (max call.optimalAmount MIN_TARGET_OUTPUT_AMOUNT))

def nTargetOutputAmount (nAllowedBalance : ℤ) : ℤ :=
  if constrainToMaxUtxos wallet call nAllowedBalance then
    nAllowedBalance.tdiv wallet.maxMintingUtxos
  else max call.optimalAmount MIN_TARGET_OUTPUT_AMOUNT

theorem nTargetOutputAmount_pos (nAllowedBalance : ℤ) :
    0 < nTargetOutputAmount wallet call nAllowedBalance := by
  have htarget : 0 < max call.optimalAmount MIN_TARGET_OUTPUT_AMOUNT :=
    lt_max_of_lt_right (by decide)
  have hpos : (0 : ℤ) < wallet.maxMintingUtxos := by exact_mod_cast wallet.maxMintingUtxos_pos
  unfold nTargetOutputAmount
  split_ifs with hconstrain
  · have hmany := of_decide_eq_true hconstrain
    have hbalance : 0 ≤ nAllowedBalance := by
      by_contra hneg
      have hless := Int.tdiv_nonneg (neg_nonneg.mpr (not_le.mp hneg).le) htarget.le
      rw [Int.neg_tdiv] at hless
      omega
    have hle : (wallet.maxMintingUtxos : ℤ) ≤ nAllowedBalance :=
      hmany.le.trans (Int.tdiv_le_self _ hbalance)
    rw [Int.tdiv_eq_ediv_of_nonneg hbalance, ← Int.add_one_le_iff, Int.le_ediv_iff_mul_le hpos]
    omega
  · exact htarget

def nCombineThreshold (nAllowedBalance : ℤ) : ℤ :=
  if constrainToMaxUtxos wallet call nAllowedBalance then
    nTargetOutputAmount wallet call nAllowedBalance
  else (nTargetOutputAmount wallet call nAllowedBalance).tdiv RECOMBINE_DIVISOR

/-- The inputs of the coinstake and their sum. -/
structure StakeInputs where
  inputs : List COutput
  nCredit : ℤ

/-- The script that `txNew.vout[1]` is read as. -/
def secondScript (found : FoundKernel) : CScript := found.minterOut.getD call.beyond

/-- Whether a coin may be added to the kernel. -/
def mayCombine (found : FoundKernel) (genesis_key_held : Bool) (pcoin : COutput) : Bool :=
  !genesis_key_held &&
    (pcoin.txout.scriptPubKey == found.kernel.txout.scriptPubKey ||
      pcoin.txout.scriptPubKey == secondScript call found) &&
    pcoin.outpoint.hash != found.kernel.outpoint.hash && wallet.m_combine_coins

/-- The loop that adds more inputs of the key of the kernel. -/
def combineInputs (g_txindex : TxIndex) (found : FoundKernel) (genesis_key_held : Bool)
    (nAllowedBalance : ℤ) : List COutput → StakeInputs → Except BlockFail StakeInputs
  | [], st => .ok st
  | pcoin :: rest, st =>
    match g_txindex.findTxPosition pcoin.outpoint.hash with
    | none => combineInputs g_txindex found genesis_key_held nAllowedBalance rest st
    | some postx =>
      if (g_txindex.readBlockFile postx).isNone then
        .error (.error "deserialize or I/O error in CreateCoinStake()")
      else if mayCombine wallet call found genesis_key_held pcoin then
        if MAX_COINSTAKE_INPUTS ≤ st.inputs.length ∧ (found.minterOut.isSome ∨
            nTargetOutputAmount wallet call nAllowedBalance < st.nCredit) then .ok st
        else if 8 ≤ st.inputs.length ∧
            st.nCredit < nTargetOutputAmount wallet call nAllowedBalance then .ok st
        else if nAllowedBalance < st.nCredit + pcoin.txout.value then .ok st
        else if nCombineThreshold wallet call nAllowedBalance < pcoin.txout.value then
          combineInputs g_txindex found genesis_key_held nAllowedBalance rest st
        else combineInputs g_txindex found genesis_key_held nAllowedBalance rest
          ⟨st.inputs ++ [pcoin], st.nCredit + pcoin.txout.value⟩
      else combineInputs g_txindex found genesis_key_held nAllowedBalance rest st

end

/-! ## Outputs -/

/-- What is fixed before the outputs are made. -/
structure StakePlan where
  nTime : UInt32
  scriptPubKeyOut : CScript
  minterOut : Option CScript
  genesis_key_held : Bool
  claims : List Claim
  /-- the sum of the inputs and the fees of the block -/
  nCredit : ℤ
  constrainToMaxUtxos : Bool
  nTargetOutputAmount : ℤ
  target_pos : 0 < nTargetOutputAmount

/-- The variables of the loop that outlive an attempt. -/
structure StakeLoop where
  attempt : ℕ := 0
  vin : List CTxIn
  nMinFee : ℤ := 0
  maxOutputs : ℤ := 30
  vClaim : List CClaim := []

/-- The outputs of an attempt: whether all of them fit, and the new limit. -/
structure StakeOutputs where
  vout : List CTxOut
  vClaim : List CClaim
  outputsOk : Bool
  maxOutputs : ℤ

/-- `CTransaction::CURRENT_VERSION`. -/
def CTransaction.CURRENT_VERSION : Int32 := 3

/-- `CMutableTransaction()`: a new transaction has the time of its making. -/
def CMutableTransaction.new (now : UInt32) : CTransaction :=
  ⟨[], [], CTransaction.CURRENT_VERSION, now, 0⟩

/-- The coinstake of the loop, with what it pays. -/
structure BuiltStake where
  txNew : CTransaction
  vClaim : List CClaim
  nMinFee : ℤ

namespace StakePlan

variable (env : Env) (wallet : CWallet) (plan : StakePlan)

/-- `txNew` with the given inputs and outputs. -/
def txNew (vin : List CTxIn) (vout : List CTxOut) : CTransaction :=
  { CMutableTransaction.new plan.nTime with vin := vin, vout := vout }

def amountOut (amount : ℤ) (scriptPubKey : CScript) : CTxOut := ⟨Int64.ofInt amount, scriptPubKey⟩

/-- The outputs that every attempt starts with. -/
def firstOutputs : List CTxOut :=
  ⟨0, ⟨[]⟩⟩ :: plan.minterOut.toList.map fun scriptPubKey => ⟨0, scriptPubKey⟩

/-- `GetSerializeSize(txNew) > 1000`. -/
def tooLarge (vin : List CTxIn) (vout : List CTxOut) : Bool :=
  decide (1000 < txSize (plan.txNew vin vout))

/-- The variables of the loop over the claims. -/
structure PayoutLoop where
  vout : List CTxOut
  current : ℤ
  vClaim : List CClaim
  outputsOk : Bool := true

/-- An output that pays a claim. -/
def PayoutLoop.pay (st : PayoutLoop) (claim : Claim) (amountToSend : ℤ) : PayoutLoop :=
  { st with
    vout := st.vout ++ [amountOut amountToSend claim.getTarget]
    vClaim := st.vClaim ++ [claim.m_claim]
    current := st.current - amountToSend }

/-- `txNew.vout.pop_back()`: the output is taken back, the claim and the amount are not. -/
def PayoutLoop.takeBack (st : PayoutLoop) : PayoutLoop :=
  { st with vout := st.vout.dropLast, outputsOk := false }

/-- The loop over the claims: each receives what it lacks, as long as there is credit. -/
def payClaims (vin : List CTxIn) : List Claim → PayoutLoop → Except BlockFail PayoutLoop
  | [], st => .ok st
  | claim :: rest, st =>
    if (claim.isValid env).2 ≠ .OK then payClaims vin rest st
    else match wallet.calculateReceived claim.getTarget with
      | none => stakeError "failed to get received amount"
      | some nTotalReceived =>
        if !moneyRange nTotalReceived then stakeError "claim total received out of range"
        else if st.current ≤ 0 then payClaims vin rest st
        else if claim.getEligible env - nTotalReceived ≤ 0 then payClaims vin rest st
        else
          let paid := st.pay claim (min st.current (claim.getEligible env - nTotalReceived))
          if !moneyRange paid.current then stakeError "credit out of range"
          else if plan.tooLarge vin paid.vout then .ok paid.takeBack
          else payClaims vin rest paid

/-- The state in which the loop over the claims starts. -/
def startPayouts (st : StakeLoop) : PayoutLoop where
  vout := plan.firstOutputs ++ if plan.claims = [] then [] else [⟨0, env.params.genesisPubKey⟩]
  current := plan.nCredit - st.nMinFee
  vClaim := st.vClaim

/-- The outputs of a coinstake of the genesis key. -/
def genesisOutputs (st : StakeLoop) : Except BlockFail StakeOutputs :=
  if plan.nCredit - st.nMinFee < 0 then stakeError "not enough balance to cover fee"
  else match plan.payClaims env wallet st.vin plan.claims (plan.startPayouts env st) with
    | .error failure => .error failure
    | .ok paid =>
      let maxOutputs := if paid.outputsOk then st.maxOutputs else st.maxOutputs - 1
      if paid.current ≤ 0 then .ok ⟨paid.vout, paid.vClaim, paid.outputsOk, maxOutputs⟩
      else
        let vout := paid.vout ++ [amountOut paid.current env.params.genesisPubKey]
        if plan.tooLarge st.vin vout then .ok ⟨paid.vout, paid.vClaim, false, maxOutputs - 1⟩
        else .ok ⟨vout, paid.vClaim, paid.outputsOk, maxOutputs⟩

/-- The number of outputs for an amount.  Unless the number is constrained, it minimises
the logarithmic distance of the outputs from the target. -/
def optimalOutputs (current : ℤ) : ℤ :=
  if plan.constrainToMaxUtxos then max (current.tdiv plan.nTargetOutputAmount) 1
  else
    let target := plan.nTargetOutputAmount
    (((4 * current * current + target * target).toNat.sqrt : ℤ) + target) / (2 * target)

/-- The loop over the outputs of a split: the outputs, and the number of those that fit if
one does not. -/
def splitLoop (vin : List CTxIn) (outValue remainder : ℤ) :
    ℕ → ℕ → List CTxOut → Except BlockFail (List CTxOut × Option ℕ)
  | 0, _, vout => .ok (vout, none)
  | left + 1, i, vout =>
    let added := vout ++
      [amountOut (outValue + if i = 0 then remainder else 0) plan.scriptPubKeyOut]
    if plan.tooLarge vin added then
      if i = 0 then stakeError "failed to create coinstake" else .ok (vout, some i)
    else splitLoop vin outValue remainder left (i + 1) added

/-- The outputs of a coinstake of another key. -/
def splitOutputs (st : StakeLoop) : Except BlockFail StakeOutputs :=
  let current := plan.nCredit - st.nMinFee
  if wallet.m_split_coins then
    let desiredOutputs := min (plan.optimalOutputs current) st.maxOutputs
    let outValue := current.tdiv desiredOutputs
    match plan.splitLoop st.vin outValue (current - outValue * desiredOutputs)
        desiredOutputs.toNat 0 plan.firstOutputs with
    | .error failure => .error failure
    | .ok (vout, none) => .ok ⟨vout, st.vClaim, true, st.maxOutputs⟩
    | .ok (vout, some i) => .ok ⟨vout, st.vClaim, false, i⟩
  else .ok ⟨plan.firstOutputs ++ [amountOut current plan.scriptPubKeyOut], st.vClaim, true,
    st.maxOutputs⟩

def stakeOutputs (st : StakeLoop) : Except BlockFail StakeOutputs :=
  if plan.genesis_key_held then plan.genesisOutputs env wallet st else plan.splitOutputs wallet st

/-- The inputs with the scripts and witnesses that signing gives them. -/
def signedInputs (vin : List CTxIn) (scripts : ℕ → CScript × List (List UInt8)) : List CTxIn :=
  vin.mapIdx fun nIn input =>
    { input with scriptSig := (scripts nIn).1, scriptWitness := (scripts nIn).2 }

/-- The fee that a coinstake needs beyond the part that is granted. -/
def nNeededFee (nBytes : ℕ) : ℤ :=
  let nTxnFee := getMinFee env.params nBytes plan.nTime
  if PERKB_TX_FEE < nTxnFee then nTxnFee - PERKB_TX_FEE else 0

/-- Signing and the tests on the size and the fee. -/
def signStake (st : StakeLoop) (outputs : StakeOutputs) :
    Loop.Round StakeLoop (Except BlockFail BuiltStake) :=
  match wallet.sign st.attempt (plan.txNew st.vin outputs.vout) with
  | none => .leave (stakeError "failed to sign coinstake")
  | some scripts =>
    let vin := signedInputs st.vin scripts
    let txNew := plan.txNew vin outputs.vout
    if 1000000 / 5 ≤ txSize txNew then
      .leave (stakeError "exceeded coinstake size limit")
    else
      let nNeededFee := plan.nNeededFee env (txSize txNew)
      if st.nMinFee < nNeededFee ∨ outputs.outputsOk = false then
        .again ⟨st.attempt + 1, vin, nNeededFee, outputs.maxOutputs, outputs.vClaim⟩
      else .leave (.ok ⟨txNew, outputs.vClaim, st.nMinFee⟩)

/-- One attempt: the body of the loop at the end of `CreateCoinStake`. -/
def attempt (st : StakeLoop) : Loop.Round StakeLoop (Except BlockFail BuiltStake) :=
  match plan.stakeOutputs env wallet st with
  | .error failure => .leave (.error failure)
  | .ok outputs => plan.signStake env wallet st outputs

end StakePlan

/-! ## The coinstake -/

/-- What a call of `CreateCoinStake` that succeeds leaves behind. -/
structure CreatedStake where
  txNew : CTransaction
  vClaim : List CClaim
  genesis_key_held : Bool
  /-- The inputs and the fee, unless the coinstake was signed in advance. -/
  built : Option (List COutput × ℤ)
  deriving DecidableEq

section

variable (env : Env) (stake : StakeRules) (wallet : CWallet) (call : MintCall)

/-- The coinstake that was signed in advance for the present time.  The first one that is
too old is dropped and ends the search. -/
def presignedStake : List (UInt32 × CTransaction) → Option CTransaction
  | [] => none
  | (timestamp, txn) :: rest =>
    if (timestamp.toNat : ℤ) < (call.time % 2 ^ 32) then
      if call.time % 2 ^ 32 - call.nSearchInterval ≤ timestamp.toNat then some txn else none
    else presignedStake rest

/-- The balance that may be staked. -/
def allowedBalance : Except BlockFail ℤ :=
  match wallet.reservebalance with
  | some none => stakeError "invalid reserve balance amount"
  | some (some nReserveBalance) =>
    if wallet.nBalance ≤ nReserveBalance then .error .silent
    else if wallet.nBalance - nReserveBalance < MIN_TXOUT_AMOUNT then .error .silent
    else .ok (wallet.nBalance - nReserveBalance)
  | none => if wallet.nBalance < MIN_TXOUT_AMOUNT then .error .silent else .ok wallet.nBalance

/-- `GetCoinAge` of the coinstake, which has to succeed. -/
def checkCoinAge (g_txindex : TxIndex) (txNew : CTransaction) : Except BlockFail Unit :=
  match (g_txindex.getCoinAge env txNew.nTime true txNew call.coinsTip).result with
  | .ok _ => .ok ()
  | .error failure =>
    match failure.escapes with
    | some failure => .error failure
    | none => stakeError "failed to calculate coin age"

/-- The inputs of the coinstake before they are signed. -/
def newInputs (inputs : List COutput) : List CTxIn :=
  inputs.map fun pcoin => ⟨pcoin.outpoint, ⟨[]⟩, 0xffffffff, []⟩

/-- The claims, the inputs and the plan of the outputs for a kernel. -/
def planStake (g_txindex : TxIndex) (coins : List COutput) (nAllowedBalance : ℤ)
    (found : FoundKernel) : Except BlockFail (StakePlan × List COutput) :=
  if found.kernel.txout.value = 0 ∨ nAllowedBalance < found.kernel.txout.value then .error .silent
  else
    let genesis_key_held := env.options.genesis_key_held ||
      env.params.genesisPubKey == found.scriptPubKeyOut
    match gatherClaims env wallet call genesis_key_held with
    | .error failure => .error failure
    | .ok claims =>
      match combineInputs wallet call g_txindex found genesis_key_held nAllowedBalance coins
          ⟨[found.kernel], found.kernel.txout.value⟩ with
      | .error failure => .error failure
      | .ok st =>
        let plan : StakePlan :=
          { nTime := call.now - UInt32.ofNat found.n
            scriptPubKeyOut := found.scriptPubKeyOut
            minterOut := found.minterOut
            genesis_key_held
            claims
            nCredit := st.nCredit + call.nFees
            constrainToMaxUtxos := constrainToMaxUtxos wallet call nAllowedBalance
            nTargetOutputAmount := nTargetOutputAmount wallet call nAllowedBalance
            target_pos := nTargetOutputAmount_pos wallet call nAllowedBalance }
        match checkCoinAge env call g_txindex
            (plan.txNew (newInputs st.inputs) plan.firstOutputs) with
        | .error failure => .error failure
        | .ok () => if call.nFees < 0 then .error .silent else .ok (plan, st.inputs)

/-- The part of `CreateCoinStake` before the loop over the outputs. -/
def prepareStake : Except BlockFail (StakePlan × List COutput) :=
  match call.g_txindex with
  | none => stakeError "transaction index unavailable"
  | some g_txindex =>
    match allowedBalance wallet with
    | .error failure => .error failure
    | .ok nAllowedBalance =>
      match wallet.selectCoins nAllowedBalance with
      | none => .error .silent
      | some coins =>
        match searchKernel env stake wallet call g_txindex coins with
        | .error failure => .error failure
        -- without a kernel there is no credit
        | .ok none => .error .silent
        | .ok (some found) => planStake env wallet call g_txindex coins nAllowedBalance found

/-- `CreateCoinStake`, if so many attempts are enough. -/
def createCoinStake? (attempts : ℕ) : Option (Except BlockFail CreatedStake) :=
  match presignedStake call wallet.m_coinstakes with
  | some txNew => some (.ok ⟨txNew, [], env.options.genesis_key_held, none⟩)
  | none =>
    match prepareStake env stake wallet call with
    | .error failure => some (.error failure)
    | .ok (plan, inputs) =>
      (Loop.run (plan.attempt env wallet) attempts { vin := newInputs inputs }).map
        fun built => built.map fun built =>
          ⟨built.txNew, built.vClaim, plan.genesis_key_held, some (inputs, built.nMinFee)⟩

end

end Patchcoin
