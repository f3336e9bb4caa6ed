import Patchcoin.Claim.Pool
import Patchcoin.Consensus.TxInputs

/-!
# The claims of a block

`checkClaims` runs on every transaction of a block after `checkTxInputs`.  It
merges the claims that the block carries into the claim pool, and then walks
over the outputs of the transaction: an output that pays the target of a pooled
claim is a payout of that claim and is counted against it, every other output
has to have one of the accepted forms.

The pool is global, and it is written before the later checks run.
-/

namespace Patchcoin

/-- What `CheckClaims` writes: the pool, and the two collections of the block
being connected.  A payout is stored under the source of its claim, with the
pointer to the claim and the amount. -/
structure ClaimState where
  g_claims : ClaimPool
  claims : Std.ExtTreeMap CScript (CScript × ℤ) compare
  queued_claims : List UInt16

/-- The state of the output loop.  `total_received` is set to zero whenever it is
about to be read, so only the second of the two local maps is kept. -/
structure OutputLoop extends ClaimState where
  outputs : Std.ExtTreeMap CScript ℕ compare

section

variable (env : Env)

/-- `IsOpReturn`. -/
def isOpReturn (script : CScript) : Bool :=
  match getScriptOp script.bytes with
  | some (opcode, _) => opcode == OP_RETURN
  | none => false

/-- `IsBtcAccepted`. -/
def isBtcAccepted (nTimeTx : UInt32) : Bool :=
  decide (env.params.nStakeGenesisLockTime.tdiv 2 <
    (nTimeTx.toNat : ℤ) - env.params.genesisNTime)

/-! ## Queued claims -/

def MAX_SIZE : ℕ := 0x02000000

/-- `ReadCompactSize`: `none` where it throws. -/
def readCompactSize : List UInt8 → Option (ℕ × List UInt8)
  | [] => none
  | marker :: rest =>
    let size := if marker < 253 then some (marker.toNat, rest)
      else
        let (width, least) := if marker = 253 then (2, 253)
          else if marker = 254 then (4, 0x10000) else (8, 0x100000000)
        match readLE width rest with
        | none => none
        | some (n, rest) => if n < least then none else some (n, rest)
    match size with
    | none => none
    | some (n, rest) => if MAX_SIZE < n then none else some (n, rest)

def readUInt16s : ℕ → List UInt8 → Option (List UInt16)
  | 0, _ => some []
  | count + 1, bytes =>
    match readLE 2 bytes with
    | none => none
    | some (n, rest) => (readUInt16s count rest).map (UInt16.ofNat n :: ·)

/-- `ds >> queued_claims`: `none` where it throws.  Bytes after the vector are
ignored. -/
def readQueue (payload : List UInt8) : Option (List UInt16) :=
  match readCompactSize payload with
  | none => none
  | some (count, rest) =>
    -- every element takes two bytes, so a longer announcement runs out of them
    if rest.length < 2 * count then none else readUInt16s count rest

/-- Whether an ancestor has queued one of the positions. -/
def alreadyQueued (ancestors : IndexChain) (queued_claims : List UInt16) : Bool :=
  ancestors.any fun pindex => queued_claims.any fun claim_pos =>
    pindex.queuedClaims.contains claim_pos

/-- The branch of the output loop for an `OP_RETURN` output: the new queue. -/
def checkOpReturn (ancestors : IndexChain) (nTimeTx : UInt32) (txout : CTxOut)
    (queued_claims : List UInt16) : Except TxFail (List UInt16) :=
  if txout.nValue ≠ 0 then txConsensus "bad-claim-op-return-not-zero"
  else if isBtcAccepted env nTimeTx then .ok queued_claims
  else match getScriptOp txout.scriptPubKey.bytes with
    | none => txConsensus "bad-claim-last-out"
    | some (_, _, next) =>
      match getScriptOp next with
      | none => txConsensus "bad-claim-last-out"
      | some (_, payload, _) =>
        match readQueue payload with
        | none => .error .thrown
        | some queue =>
          if alreadyQueued ancestors queue then txConsensus "bad-claim-already-queued"
          else .ok queue

/-! ## Payouts -/

/-- `CheckClaimOutputFormat`, for an output without a claim. -/
def checkClaimOutputFormat (scriptPubKey : CScript) : Bool :=
  scriptPubKey.empty || scriptPubKey == env.params.genesisPubKey || isOpReturn scriptPubKey

/-- The limits of `CheckClaimEligibility`, for a claim that has received the given sum
in the given number of payouts: the number with this payout. -/
def checkClaimLimits (value : ℤ) (claim : Claim) (nTotalReceived : ℤ) (nOutputs : ℕ) :
    Except TxFail ℕ :=
  if decide (claim.MAX_POSSIBLE_OUTPUTS < nOutputs + 1) || (env.options.genesis_key_held &&
      (decide (claim.MAX_OUTPUTS < nOutputs + 1) ||
        decide (claim.getMaxOutputs env < nOutputs + 1))) then
    txConsensus "bad-claim-out-limit"
  else if !moneyRange (nTotalReceived + value) ||
      decide (50000 * COIN < nTotalReceived + value) then
    txConsensus "bad-claim-out-of-range"
  else if claim.m_is_btc && !claim.m_electrum_result then .ok (nOutputs + 1)
  else if claim.getEligible env < nTotalReceived + value then
    txConsensus "bad-claim-exceed-eligible"
  else .ok (nOutputs + 1)

/-- The amounts of `CheckClaimEligibility`.  The earlier payouts of a Bitcoin claim
whose signature was never verified are not summed up. -/
def checkClaimAmounts (ancestors : IndexChain) (value : ℤ) (claim : Claim) (nOutputs : ℕ) :
    Except TxFail ℕ :=
  if claim.m_is_btc && !claim.m_electrum_result then checkClaimLimits env value claim 0 nOutputs
  else
    let received := claim.getTotalReceived env ancestors 0 nOutputs
    if !received.1 then txConsensus "bad-claim-total-check"
    else checkClaimLimits env value claim received.2.1 received.2.2

/-- `CheckClaimEligibility`: the claim with what `IsValid` left in its cache, and the
number of payouts of the claim including this one. -/
def checkClaimEligibility (ancestors : IndexChain) (value : ℤ) (claim : Claim)
    (claims : Std.ExtTreeMap CScript (CScript × ℤ) compare) (nOutputs : ℕ) :
    Claim × Except TxFail ℕ :=
  if claims.contains claim.getSource then (claim, txConsensus "bad-claim-dup-block")
  else if (claim.isValid env).2 ≠ .OK then
    ((claim.isValid env).1, txConsensus "bad-claim-invalid")
  else ((claim.isValid env).1,
    checkClaimAmounts env ancestors value (claim.isValid env).1 nOutputs)

/-- The output loop of `CheckClaims` for an output without a claim: the new queue. -/
def checkOtherOutput (ancestors : IndexChain) (nTimeTx : UInt32) (txout : CTxOut)
    (queued_claims : List UInt16) : Except TxFail (List UInt16) :=
  if !checkClaimOutputFormat env txout.scriptPubKey then txConsensus "bad-claim-format"
  else if isOpReturn txout.scriptPubKey then
    checkOpReturn env ancestors nTimeTx txout queued_claims
  else .ok queued_claims

/-- The body of the output loop of `CheckClaims`. -/
def checkClaimOutput (ancestors : IndexChain) (nTimeTx : UInt32) (txout : CTxOut)
    (st : OutputLoop) : Outcome OutputLoop TxFail Unit :=
  match st.g_claims.attributed txout.scriptPubKey with
  | none =>
    match checkOtherOutput env ancestors nTimeTx txout st.queued_claims with
    | .error failure => .fail st failure
    | .ok queued_claims => .pass { st with queued_claims }
  | some (key, claim) =>
    let checked := checkClaimEligibility env ancestors txout.value claim st.claims
      (st.outputs.getD claim.getSource 0)
    -- the claim is checked in place
    let g_claims := st.g_claims.write key checked.1
    match checked.2 with
    | .error failure => .fail { st with g_claims } failure
    | .ok nOutputs => .pass { st with
        g_claims
        claims := st.claims.insert claim.getSource (key, txout.value)
        outputs := st.outputs.insert claim.getSource nOutputs }

/-! ## The claims of the block -/

/-- The claim that `CheckClaims` makes of a claim of the block, with its verdict. -/
def checkedClaim (claim : CClaim) : Claim × Claim.VerificationResult :=
  (Claim.ofCClaim env claim).isValid env

/-- `maybe_valid.IsUnique() && !maybe_valid.Insert()`: the pool, and whether the loop
goes on. -/
def insertIfUnique (pool : ClaimPool) (claim : Claim) : ClaimPool × Bool :=
  if pool.isUnique claim then
    ((pool.insertClaim env claim).1, (pool.insertClaim env claim).2.2)
  else (pool, true)

/-- The body of the insert loop of `CheckClaims`. -/
def insertBlockClaim (nTimeTx : UInt32) (claim : CClaim) (pool : ClaimPool) :
    Outcome ClaimPool TxFail Unit :=
  let maybe_valid := (checkedClaim env claim).1
  let pool' := (insertIfUnique env pool maybe_valid).1
  if (checkedClaim env claim).2 ≠ .OK then
    .fail pool (.invalid .TX_CONSENSUS "bad-claim-invalid")
  else if !(insertIfUnique env pool maybe_valid).2 then
    .fail pool' (.invalid .TX_CONSENSUS "bad-claim-no-insert")
  else if maybe_valid.m_is_btc && !isBtcAccepted env nTimeTx then
    .fail pool' (.invalid .TX_CONSENSUS "bad-claim-btc-time")
  else .pass pool'

/-- The insert loop of `CheckClaims`. -/
def insertBlockClaims (nTimeTx : UInt32) (vClaim : List CClaim) (pool : ClaimPool) :
    Outcome ClaimPool TxFail Unit :=
  Outcome.forEach (insertBlockClaim env nTimeTx) vClaim pool

/-- The output loop of `CheckClaims`. -/
def checkClaimOutputs (ancestors : IndexChain) (nTimeTx : UInt32) (vout : List CTxOut)
    (st : ClaimState) : Outcome ClaimState TxFail Unit :=
  let checked := Outcome.forEach (checkClaimOutput env ancestors nTimeTx) vout
    { st with outputs := ∅ }
  ⟨checked.state.toClaimState, checked.result⟩

/-- The input loop of `CheckClaims`. -/
def checkGenesisInputs (view : CCoinsView) (tx : CTransaction) (nTimeTx : UInt32) :
    List CTxIn → Except TxFail Unit
  | [] => .ok ()
  | input :: rest =>
    match checkGenesisKeyInput env (view.accessCoin input.prevout).out.scriptPubKey tx
        nTimeTx with
    | .error failure => .error failure
    | .ok () => checkGenesisInputs view tx nTimeTx rest

/-- Whether the transaction spends a coin of the genesis key. -/
def spendsGenesisKey (view : CCoinsView) (tx : CTransaction) : Bool :=
  tx.vin.any fun input =>
    (view.accessCoin input.prevout).out.scriptPubKey == env.params.genesisPubKey

/-- The tests of `CheckClaims` before it touches the pool, for a block that carries
claims.  The bound on the number of claims is a difference of `size_t`. -/
def checkClaimGuards (view : CCoinsView) (tx : CTransaction) (nTimeTx : UInt32)
    (vClaim : List CClaim) : Except TxFail Unit :=
  if env.params.nStakeGenesisLockTime < (nTimeTx.toNat : ℤ) - env.params.genesisNTime then
    txConsensus "bad-claim-outside-claim-period"
  else match checkGenesisInputs env view tx nTimeTx tx.vin with
    | .error failure => .error failure
    | .ok () =>
      if !spendsGenesisKey env view tx then txConsensus "bad-claims-not-empty"
      else if (tx.vout.length + 2 ^ 64 - 2) % 2 ^ 64 < vClaim.length then
        txConsensus "bad-claims-too-many"
      else .ok ()

/-- `CheckClaims`. -/
def checkClaims (ancestors : IndexChain) (view : CCoinsView) (tx : CTransaction)
    (nTimeTx : UInt32) (vClaim : List CClaim) (st : ClaimState) : Outcome ClaimState TxFail Unit :=
  if vClaim.isEmpty then .pass st
  else match checkClaimGuards env view tx nTimeTx vClaim with
    | .error failure => .fail st failure
    | .ok () =>
      let merged := insertBlockClaims env nTimeTx vClaim st.g_claims
      let st := { st with g_claims := merged.state }
      match merged.result with
      | .error failure => .fail st failure
      | .ok () => checkClaimOutputs env ancestors nTimeTx tx.vout st

end

end Patchcoin
