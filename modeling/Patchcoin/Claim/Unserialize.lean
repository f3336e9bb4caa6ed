import Patchcoin.Claim.ClaimSet
import Patchcoin.Primitives.Read

/-!
# Reading a claim into an object

`Unserialize` of a claim overwrites `m_claim` and then runs `Init` on the object as it is.
`Init` was written for an object that `SetNull` has cleared: it appends to the balances, never
resets `m_is_btc`, takes over an eligible amount that it finds, and leaves everything as it was
if the snapshot or an address stops it early.  The stream does not carry the total received
unless it comes from disk, and the cached answer of the signature service is never reset.

`Classified` says what the middle part does to each field that is seen, and
`getEligible_finish` which amount the claim has in the end.
-/

namespace Patchcoin

open Reader Std.ExtTreeMap

/-! ## The stream -/

/-- What a stream carries of a claim. -/
inductive StoredClaim where
  | network (m_claim : CClaim)
  | disk (record : ClaimRecord)
  deriving DecidableEq

def StoredClaim.m_claim : StoredClaim → CClaim
  | .network m_claim => m_claim
  | .disk record => record.m_claim

/-- The fields of a claim, as `SERIALIZE_METHODS(Claim, obj)` reads them. -/
def readStoredClaim (disk : Bool) : Reader StoredClaim :=
  readClaim.andThen fun m_claim =>
    if disk then
      readInt64.andThen fun nTime => readUInt8.andThen fun m_seen =>
        readInt64.andThen fun nTotalReceived =>
          done (.disk ⟨m_claim, nTime.toInt, m_seen != 0, nTotalReceived.toInt⟩)
    else done (.network m_claim)

namespace Claim

/-- The object after the fields of the stream were read into it. -/
def holding (claim : Claim) : StoredClaim → Claim
  | .network m_claim => { claim with m_claim }
  | .disk record =>
    { claim with
      m_claim := record.m_claim
      nTime := record.nTime
      m_seen := record.m_seen
      nTotalReceived := record.nTotalReceived }

section

variable (env : Env)

/-- The middle part of `Init` on an object that may hold another claim. -/
def classifyOver (claim : Claim) : Claim :=
  match env.snapshot.scriptPubKeys[claim.m_claim.source]? with
  | some balance =>
    { claim with
      snapshotIt := true
      source := some claim.m_claim.source
      m_peercoin_balances := claim.m_peercoin_balances ++ [balance]
      m_signature_string := env.host.encodeBase64 claim.m_claim.signature
      m_compatible := true }
  | none =>
    match env.snapshot.incompatibleScriptPubKeys[claim.m_claim.source]? with
    | some utxo =>
      { claim with
        snapshotIt := false
        incompatibleSnapshotIt := true
        source := some claim.m_claim.source
        m_peercoin_balances := claim.m_peercoin_balances ++
          utxo.map fun entry => entry.2.out.value
        m_signature_string := env.host.encodeHexTx claim.m_claim.dummyTx
        m_compatible := false }
    | none =>
      { claim with
        snapshotIt := false
        incompatibleSnapshotIt := false
        m_is_btc := true
        m_signature_string := env.host.encodeBase64 claim.m_claim.signature
        m_compatible := false }

/-- `Init` from the point where it has the addresses. -/
def finish (claim : Claim) : Claim :=
  ((claim.setAddresses env).classifyOver env).setLimits env

/-- `Init`, on any object. -/
def initOver (claim : Claim) : Claim :=
  if !snapshotIsValid env then claim
  else if (claim.setAddresses env).hasEmptyAddress then claim.setAddresses env
  else claim.finish env

/-- `Unserialize` into an object. -/
def unserialize (disk : Bool) (claim : Claim) : Reader Claim :=
  (readStoredClaim disk).andThen fun stored => done ((claim.holding stored).initOver env)

end

variable {env : Env} {claim claim' : Claim}

/-- On a cleared object this is the `Init` of the constructors. -/
theorem initOver_cleared (m_claim : CClaim) : initOver env { m_claim } = ofCClaim env m_claim := by
  have hclassify : classifyOver env (({ m_claim } : Claim).setAddresses env) =
      (({ m_claim } : Claim).setAddresses env).classify env := by
    cases env.snapshot.scriptPubKeys[(({ m_claim } : Claim).setAddresses env).m_claim.source]? with
    | some balance => rfl
    | none =>
      cases env.snapshot.incompatibleScriptPubKeys[
          (({ m_claim } : Claim).setAddresses env).m_claim.source]? with
      | some utxo => rfl
      | none => rfl
  unfold initOver ofCClaim Claim.init finish
  rw [hclassify]

@[simp] theorem m_claim_holding (claim : Claim) (stored : StoredClaim) :
    (claim.holding stored).m_claim = stored.m_claim := by
  cases stored with
  | network m_claim => rfl
  | disk record => rfl

/-! ## What `Init` sets -/

/-- The balances that the snapshot lists for a source. -/
def listed (env : Env) (source : CScript) : List ℤ :=
  match env.snapshot.scriptPubKeys[source]? with
  | some balance => [balance]
  | none => (env.snapshot.incompatibleScriptPubKeys.getD source []).map fun entry =>
    entry.2.out.value

theorem sum_listed (source : CScript) : (listed env source).sum = snapshotBalance env source := by
  unfold listed snapshotBalance
  cases env.snapshot.scriptPubKeys[source]? with
  | some balance => simp
  | none => rfl

/-- Everything that the middle part of `Init` does to the fields that are seen. -/
structure Classified (env : Env) (claim result : Claim) : Prop where
  m_claim : result.m_claim = claim.m_claim
  source_address : result.m_source_address = claim.m_source_address
  bitcoin_source_address : result.m_bitcoin_source_address = claim.m_bitcoin_source_address
  target_address : result.m_target_address = claim.m_target_address
  balances : result.m_peercoin_balances =
    claim.m_peercoin_balances ++ listed env claim.m_claim.source
  eligible : result.m_eligible = claim.m_eligible
  compatible : result.m_compatible =
    env.snapshot.scriptPubKeys.contains claim.m_claim.source
  is_btc : result.m_is_btc = (claim.m_is_btc || !inSnapshot env claim.m_claim.source)
  getSource : result.getSource? = some claim.m_claim.source
  answer : result.m_electrum_result = claim.m_electrum_result
  received : result.nTotalReceived = claim.nTotalReceived

theorem classified (claim : Claim) : Classified env claim (claim.classifyOver env) := by
  have hlisted : listed env claim.m_claim.source =
      match env.snapshot.scriptPubKeys[claim.m_claim.source]? with
      | some balance => [balance]
      | none => (env.snapshot.incompatibleScriptPubKeys[claim.m_claim.source]?.getD []).map
          fun entry => entry.2.out.value := by
    rw [listed, getD_eq_getD_getElem?]
  have hin : inSnapshot env claim.m_claim.source =
      (env.snapshot.scriptPubKeys[claim.m_claim.source]?.isSome ||
        env.snapshot.incompatibleScriptPubKeys[claim.m_claim.source]?.isSome) := by
    rw [inSnapshot, contains_eq_isSome_getElem?,
      contains_eq_isSome_getElem?]
  have hcontains : env.snapshot.scriptPubKeys.contains claim.m_claim.source =
      env.snapshot.scriptPubKeys[claim.m_claim.source]?.isSome :=
    contains_eq_isSome_getElem?
  unfold classifyOver
  cases hcompatible : env.snapshot.scriptPubKeys[claim.m_claim.source]? with
  | some balance =>
    rw [hcompatible] at hlisted hin hcontains
    refine ⟨rfl, rfl, rfl, rfl, by rw [hlisted], rfl, by rw [hcontains]; rfl, ?_, ?_, rfl, rfl⟩
    · simp [hin]
    · simp [getSource?]
  | none =>
    rw [hcompatible] at hlisted hin hcontains
    cases hincompatible : env.snapshot.incompatibleScriptPubKeys[claim.m_claim.source]? with
    | some utxo =>
      rw [hincompatible] at hlisted hin
      refine ⟨rfl, rfl, rfl, rfl, by rw [hlisted]; rfl, rfl, by rw [hcontains]; rfl, ?_, ?_,
        rfl, rfl⟩
      · simp [hin]
      · simp [getSource?]
    | none =>
      rw [hincompatible] at hlisted hin
      refine ⟨rfl, rfl, rfl, rfl, by rw [hlisted]; simp, rfl, by rw [hcontains]; rfl, ?_, rfl,
        rfl, rfl⟩
      simp [hin]

/-- `GetEligible` after `Init`: an amount that was there before is taken over. -/
theorem getEligible_finish (hbalances : claim.m_peercoin_balances = [])
    (hbtc : inSnapshot env claim.m_claim.source = true → claim.m_is_btc = false) :
    (claim.finish env).getEligible env =
      if 0 < claim.m_eligible then claim.m_eligible else eligibleFor env claim.m_claim.source := by
  have hset := @classified env (claim.setAddresses env)
  have hpeercoin : ((claim.setAddresses env).classifyOver env).getPeercoinBalance =
      rangedBalance (snapshotBalance env claim.m_claim.source) := by
    have hnone : (claim.setAddresses env).m_peercoin_balances = [] := hbalances
    unfold getPeercoinBalance
    rw [hset.balances, hnone, List.nil_append, sum_listed]
    rfl
  rw [finish, getEligible_setLimits]
  unfold getEligible eligibleFor
  rw [hset.eligible, hset.is_btc, hpeercoin, getBitcoinBalance_eq, hset.bitcoin_source_address]
  simp only [setAddresses]
  by_cases hin : inSnapshot env claim.m_claim.source = true
  · simp [hin, hbtc hin, capEligible_calculateEligible]
  · simp [hin, capEligible_calculateEligibleBTC]

theorem unserialize_eq_some_iff {disk : Bool} {bytes rest : List UInt8} :
    claim.unserialize env disk bytes = some (claim', rest) ↔
      ∃ stored, readStoredClaim disk bytes = some (stored, rest) ∧
        claim' = (claim.holding stored).initOver env := by
  unfold unserialize
  rw [andThen_eq_some_iff]
  constructor
  · rintro ⟨stored, rest', hread, hdone⟩
    cases hdone
    exact ⟨stored, hread, rfl⟩
  · rintro ⟨stored, hread, rfl⟩
    exact ⟨stored, rest, hread, rfl⟩

end Claim

end Patchcoin
