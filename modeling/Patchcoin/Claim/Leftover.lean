import Patchcoin.Claim.Unserialize

/-!
# What a claim shows of the object it was read into

`Unserialize` runs `Init` on an object as it is.  The result may show the claim that the object
held before: its balances, its eligible amount, that it was a Bitcoin claim, the answer of the
signature service, the total received, and everything if `Init` stops early.

`Harmless` says when it does not, by the place where `Init` stops.  A cleared object is always
harmless.  For the verdict of `IsValid` the two results are compared test by test: the tests
before the signature service read the same values (`Alike`), so only the cached answer and the
total received are left.
-/

namespace Patchcoin

open Reader

namespace Claim

variable {env : Env} {claim claim' : Claim} {stored : StoredClaim}

/-! ## What is left of the old claim -/

/-- What the claim's users see of it. -/
structure Agree (env : Env) (claim claim' : Claim) : Prop where
  source : claim.getSource? = claim'.getSource?
  target : claim.getTarget = claim'.getTarget
  source_address : claim.m_source_address = claim'.m_source_address
  bitcoin_source_address : claim.m_bitcoin_source_address = claim'.m_bitcoin_source_address
  target_address : claim.m_target_address = claim'.m_target_address
  balances : claim.m_peercoin_balances = claim'.m_peercoin_balances
  eligible : claim.getEligible env = claim'.getEligible env
  compatible : claim.m_compatible = claim'.m_compatible
  is_btc : claim.m_is_btc = claim'.m_is_btc
  init : claim.m_init = claim'.m_init
  isValid : (claim.isValid env).2 = (claim'.isValid env).2

theorem Agree.symm (h : Agree env claim claim') : Agree env claim' claim :=
  ⟨h.source.symm, h.target.symm, h.source_address.symm, h.bitcoin_source_address.symm,
    h.target_address.symm, h.balances.symm, h.eligible.symm, h.compatible.symm, h.is_btc.symm,
    h.init.symm, h.isValid.symm⟩

theorem Agree.trans {claim'' : Claim} (h : Agree env claim claim')
    (h' : Agree env claim' claim'') : Agree env claim claim'' :=
  ⟨h.source.trans h'.source, h.target.trans h'.target, h.source_address.trans h'.source_address,
    h.bitcoin_source_address.trans h'.bitcoin_source_address,
    h.target_address.trans h'.target_address, h.balances.trans h'.balances,
    h.eligible.trans h'.eligible, h.compatible.trans h'.compatible, h.is_btc.trans h'.is_btc,
    h.init.trans h'.init, h.isValid.trans h'.isValid⟩

/-- The object shows no other claim in the fields that an `Init` that stops early leaves
alone. -/
structure Untouched (claim : Claim) : Prop where
  source : claim.source = none
  balances : claim.m_peercoin_balances = []
  eligible : claim.m_eligible ≤ 0
  compatible : claim.m_compatible = false
  is_btc : claim.m_is_btc = false
  init : claim.m_init = false

/-- The claim gets as far as the signature service, which refuses it. -/
def Rejected (env : Env) (claim : Claim) : Prop :=
  claim.checkFields env = .OK ∧ claim.checkSnapshotProof env = .OK ∧ claim.refused env = true

/-- What must hold of the old object if `Init` gets to its end, against the claim `fresh` that
a cleared object holds then. -/
structure Covered (env : Env) (claim fresh : Claim) : Prop where
  balances : claim.m_peercoin_balances = []
  eligible : 0 < claim.m_eligible → claim.m_eligible = eligibleFor env fresh.m_claim.source
  is_btc : inSnapshot env fresh.m_claim.source = true → claim.m_is_btc = false
  answer : fresh.Rejected env → claim.m_electrum_result = false
  received : (fresh.isValid env).2 = .OK → claim.nTotalReceived ≤ receivedLimit env fresh

/-- A cleared object, whatever its `m_claim`. -/
def cleared (claim : Claim) : Claim := { m_claim := claim.m_claim }

/-- The result of reading into the object does not show what the object held before. -/
def Harmless (env : Env) (claim : Claim) (stored : StoredClaim) : Prop :=
  if !snapshotIsValid env then
    claim.Untouched ∧ claim.m_source_address = "" ∧ claim.m_bitcoin_source_address = "" ∧
      claim.m_target_address = ""
  else if ((claim.holding stored).setAddresses env).hasEmptyAddress then claim.Untouched
  else Covered env (claim.holding stored) ((claim.cleared.holding stored).initOver env)

/-! ## What `IsValid` reads -/

/-- The claims have the fields in common that `IsValid` reads before it comes to the cached
answer and to amounts. -/
structure Alike (claim claim' : Claim) : Prop where
  m_claim : claim.m_claim = claim'.m_claim
  source_address : claim.m_source_address = claim'.m_source_address
  bitcoin_source_address : claim.m_bitcoin_source_address = claim'.m_bitcoin_source_address
  target_address : claim.m_target_address = claim'.m_target_address
  signature_string : claim.m_signature_string = claim'.m_signature_string
  compatible : claim.m_compatible = claim'.m_compatible
  is_btc : claim.m_is_btc = claim'.m_is_btc
  init : claim.m_init = claim'.m_init
  getSource : claim.getSource? = claim'.getSource?
  source : claim.m_is_btc = false → claim.source = claim'.source
  snapshotIt : claim.m_is_btc = false → claim.snapshotIt = claim'.snapshotIt
  incompatibleSnapshotIt : claim.m_compatible = false →
    claim.incompatibleSnapshotIt = claim'.incompatibleSnapshotIt

theorem Alike.checkFields_eq (h : Alike claim claim') :
    claim.checkFields env = claim'.checkFields env := by
  have hsnapshot : (claim'.m_compatible && !claim'.m_is_btc && !claim.snapshotIt) =
      (claim'.m_compatible && !claim'.m_is_btc && !claim'.snapshotIt) := by
    cases hbtc : claim'.m_is_btc with
    | true => simp
    | false => rw [h.snapshotIt (h.is_btc.trans hbtc)]
  have hincompatible :
      (!claim'.m_compatible && !claim'.m_is_btc && !claim.incompatibleSnapshotIt) =
        (!claim'.m_compatible && !claim'.m_is_btc && !claim'.incompatibleSnapshotIt) := by
    cases hcompatible : claim'.m_compatible with
    | true => simp
    | false => rw [h.incompatibleSnapshotIt (h.compatible.trans hcompatible)]
  have hsource : (!claim'.m_is_btc && ((env.getScriptFromAddress claim'.m_source_address).empty ||
        claim.source.isNone || env.getAddressFromScript (claim.source.getD ⟨[]⟩) == "")) =
      (!claim'.m_is_btc && ((env.getScriptFromAddress claim'.m_source_address).empty ||
        claim'.source.isNone || env.getAddressFromScript (claim'.source.getD ⟨[]⟩) == "")) := by
    cases hbtc : claim'.m_is_btc with
    | true => simp
    | false => rw [h.source (h.is_btc.trans hbtc)]
  unfold checkFields getBaseSize CLAIM_SIZE dummyTxIsNull isSourceTarget isSourceTargetAddress
    getTarget Claim.getSource
  rw [h.m_claim, h.source_address, h.bitcoin_source_address, h.target_address,
    h.signature_string, h.compatible, h.is_btc, h.init, h.getSource, hsnapshot, hincompatible,
    hsource]

theorem Alike.checkSnapshotProof_eq (h : Alike claim claim') :
    claim.checkSnapshotProof env = claim'.checkSnapshotProof env := by
  unfold checkSnapshotProof verifyDummyTx getTarget Claim.getSource
  rw [h.m_claim, h.source_address, h.bitcoin_source_address, h.target_address,
    h.signature_string, h.compatible, h.is_btc, h.getSource]

/-- The service is asked unless it has said yes before. -/
theorem refused_eq (claim : Claim) : claim.refused env =
    (!claim.m_electrum_result && (claim.m_is_btc && env.isLookupEnabled &&
      !env.options.electrumVerify claim.m_bitcoin_source_address claim.m_signature_string
        claim.m_target_address)) := by
  unfold refused askElectrum
  cases claim.m_is_btc with
  | false => simp
  | true =>
    cases claim.m_electrum_result with
    | true => simp
    | false =>
      cases env.isLookupEnabled with
      | false => simp
      | true => simp

theorem Alike.refused_eq (h : Alike claim claim') (hanswer : claim'.m_electrum_result = false) :
    claim.refused env = (!claim.m_electrum_result && claim'.refused env) := by
  rw [Claim.refused_eq, Claim.refused_eq claim', h.is_btc, h.bitcoin_source_address,
    h.signature_string, h.target_address, hanswer]
  rfl

/-- The verdict on a claim and on the same claim in a cleared object: they differ if only the
service's answer in the cache lets the claim pass, or if the old total is too large. -/
theorem Alike.isValid_eq_iff {fresh : Claim} (h : Alike claim fresh)
    (hanswer : fresh.m_electrum_result = false)
    (heligible : claim.getEligible env = fresh.getEligible env)
    (hnonneg : 0 ≤ fresh.getEligible env) (hle : fresh.getEligible env ≤ MAX_CLAIM_REWARD)
    (htotal : claim.nTotalReceived = fresh.nTotalReceived ∨ fresh.nTotalReceived = 0) :
    (claim.isValid env).2 = (fresh.isValid env).2 ↔
      (fresh.Rejected env → claim.m_electrum_result = false) ∧
      ((fresh.isValid env).2 = .OK → claim.nTotalReceived ≤ receivedLimit env fresh) := by
  have hlimit : receivedLimit env claim = receivedLimit env fresh := by
    unfold receivedLimit
    rw [h.is_btc, heligible]
  have hlimitNonneg : 0 ≤ receivedLimit env fresh := by
    unfold receivedLimit
    split_ifs
    · decide
    · exact hnonneg
  have hamounts := checkAmounts_eq claim (heligible ▸ hnonneg) (heligible ▸ hle)
  have hamounts' := checkAmounts_eq fresh hnonneg hle
  rw [hlimit] at hamounts
  unfold Rejected
  rw [isValid_snd claim, isValid_snd fresh, h.checkFields_eq, h.checkSnapshotProof_eq,
    h.refused_eq hanswer, hamounts, hamounts']
  by_cases hfields : fresh.checkFields env = .OK
  · by_cases hproof : fresh.checkSnapshotProof env = .OK
    · rw [hfields, hproof]
      simp only [ne_eq, not_true_eq_false, if_false, true_and]
      cases hrefused : fresh.refused env with
      | true =>
        cases claim.m_electrum_result with
        | false => simp
        | true =>
          refine iff_of_false ?_ ?_
          · simp only [Bool.not_true, Bool.false_and, Bool.false_eq_true, if_false, if_true]
            split_ifs
            · nofun
            · nofun
          · intro hkept
            exact absurd (hkept.1 rfl) (by decide)
      | false =>
        simp only [Bool.and_false, Bool.false_eq_true, if_false, false_imp_iff, true_and]
        split_ifs with hreceived hreceived' hreceived'
        · simp [hreceived]
        · have hsmall : fresh.nTotalReceived ≤ receivedLimit env fresh := by omega
          exact absurd hsmall hreceived'
        · simp [hreceived]
        · simp
    · rw [hfields]
      simp [hproof]
  · simp [hfields]

/-- After `Init` the claims differ in no field that `IsValid` reads before the answer. -/
theorem alike_finish (hclaim : claim.m_claim = claim'.m_claim)
    (hbtc : inSnapshot env claim'.m_claim.source = true → claim.m_is_btc = claim'.m_is_btc) :
    Alike (claim.finish env) (claim'.finish env) := by
  have hset := @classified env (claim.setAddresses env)
  have hset' := @classified env (claim'.setAddresses env)
  have hclaim' : (claim.setAddresses env).m_claim = (claim'.setAddresses env).m_claim := hclaim
  have hclass : ((claim.setAddresses env).classifyOver env).m_is_btc =
      ((claim'.setAddresses env).classifyOver env).m_is_btc := by
    rw [hset.is_btc, hset'.is_btc, hclaim']
    show (claim.m_is_btc || !inSnapshot env claim'.m_claim.source) =
      (claim'.m_is_btc || !inSnapshot env claim'.m_claim.source)
    cases hin : inSnapshot env claim'.m_claim.source with
    | true => rw [hbtc hin]
    | false => simp
  have hcompatible : ((claim.setAddresses env).classifyOver env).m_compatible =
      ((claim'.setAddresses env).classifyOver env).m_compatible := by
    rw [hset.compatible, hset'.compatible, hclaim']
  have hfound : ((claim.setAddresses env).classifyOver env).getSource? =
      ((claim'.setAddresses env).classifyOver env).getSource? := by
    rw [hset.getSource, hset'.getSource, hclaim']
  refine ⟨hset.m_claim.trans (hclaim'.trans hset'.m_claim.symm),
    hset.source_address.trans (Eq.trans ?_ hset'.source_address.symm),
    hset.bitcoin_source_address.trans (Eq.trans ?_ hset'.bitcoin_source_address.symm),
    hset.target_address.trans (Eq.trans ?_ hset'.target_address.symm), ?_,
    hcompatible, hclass, rfl, hfound, ?_, ?_, ?_⟩
  · exact congrArg (fun m_claim => env.getAddressFromScript m_claim.source) hclaim
  · exact congrArg (fun m_claim => env.getBtcAddressFromScript m_claim.source) hclaim
  · exact congrArg (fun m_claim => env.getAddressFromScript m_claim.target) hclaim
  -- the fields that depend on the class of the source
  all_goals
    simp only [finish, setLimits]
    unfold classifyOver
    rw [hclaim']
    cases env.snapshot.scriptPubKeys[(claim'.setAddresses env).m_claim.source]? with
    | some balance => simp
    | none =>
      cases env.snapshot.incompatibleScriptPubKeys[
          (claim'.setAddresses env).m_claim.source]? with
      | some utxo => simp
      | none => simp

/-! ## Against a cleared object -/

theorem Untouched.getEligible_eq (h : claim.Untouched) : claim.getEligible env = 0 := by
  unfold getEligible getPeercoinBalance
  rw [if_neg (not_lt.mpr h.eligible), h.is_btc, h.balances]
  rfl

/-- `Init` stopped early. -/
theorem agree_iff_of_untouched {fresh : Claim} (hfresh : fresh.Untouched)
    (hclaim : claim.m_claim = fresh.m_claim) : Agree env claim fresh ↔ claim.Untouched ∧
      claim.m_source_address = fresh.m_source_address ∧
      claim.m_bitcoin_source_address = fresh.m_bitcoin_source_address ∧
      claim.m_target_address = fresh.m_target_address := by
  constructor
  · intro h
    have hbtc : claim.m_is_btc = false := h.is_btc.trans hfresh.is_btc
    refine ⟨⟨?_, h.balances.trans hfresh.balances, ?_, h.compatible.trans hfresh.compatible, hbtc,
      h.init.trans hfresh.init⟩, h.source_address, h.bitcoin_source_address, h.target_address⟩
    · have hsource := h.source
      simpa [getSource?, hbtc, hfresh.is_btc, hfresh.source] using hsource
    · by_contra hpos
      have heligible := h.eligible
      rw [hfresh.getEligible_eq, getEligible, if_pos (not_le.mp hpos)] at heligible
      omega
  · rintro ⟨h, hsource, hbitcoin, htarget⟩
    refine ⟨?_, ?_, hsource, hbitcoin, htarget, h.balances.trans hfresh.balances.symm, ?_,
      h.compatible.trans hfresh.compatible.symm, h.is_btc.trans hfresh.is_btc.symm,
      h.init.trans hfresh.init.symm, ?_⟩
    · simp [getSource?, h.is_btc, h.source, hfresh.is_btc, hfresh.source]
    · exact congrArg CClaim.target hclaim
    · rw [h.getEligible_eq, hfresh.getEligible_eq]
    · rw [isValid_of_not_init h.init, isValid_of_not_init hfresh.init]

section

variable {fresh : Claim} (hfresh : fresh.Untouched) (hclaim : claim.m_claim = fresh.m_claim)

include hfresh hclaim

theorem balances_finish_eq_iff :
    (claim.finish env).m_peercoin_balances = (fresh.finish env).m_peercoin_balances ↔
      claim.m_peercoin_balances = [] := by
  have hnone : (fresh.setAddresses env).m_peercoin_balances = [] := hfresh.balances
  have hsame : (claim.setAddresses env).m_claim = (fresh.setAddresses env).m_claim := hclaim
  show ((claim.setAddresses env).classifyOver env).m_peercoin_balances =
    ((fresh.setAddresses env).classifyOver env).m_peercoin_balances ↔ _
  rw [(classified _).balances, (classified _).balances, hnone, hsame, List.append_left_inj]
  rfl

theorem is_btc_finish_eq_iff : (claim.finish env).m_is_btc = (fresh.finish env).m_is_btc ↔
    (inSnapshot env fresh.m_claim.source = true → claim.m_is_btc = false) := by
  show ((claim.setAddresses env).classifyOver env).m_is_btc =
    ((fresh.setAddresses env).classifyOver env).m_is_btc ↔ _
  rw [(classified _).is_btc, (classified _).is_btc]
  show (claim.m_is_btc || !inSnapshot env claim.m_claim.source) =
    (fresh.m_is_btc || !inSnapshot env fresh.m_claim.source) ↔ _
  rw [hclaim, hfresh.is_btc]
  cases inSnapshot env fresh.m_claim.source with
  | true => simp
  | false => simp

/-- `Init` got to its end. -/
theorem agree_iff_covered (hanswer : fresh.m_electrum_result = false)
    (htotal : claim.nTotalReceived = fresh.nTotalReceived ∨ fresh.nTotalReceived = 0) :
    Agree env (claim.finish env) (fresh.finish env) ↔ Covered env claim (fresh.finish env) := by
  have hset := @classified env (claim.setAddresses env)
  have hset' := @classified env (fresh.setAddresses env)
  have hread : (fresh.finish env).m_claim = fresh.m_claim := hset'.m_claim
  have heligible' : (fresh.finish env).getEligible env = eligibleFor env fresh.m_claim.source := by
    rw [getEligible_finish hfresh.balances fun _ => hfresh.is_btc]
    exact if_neg (not_lt.mpr hfresh.eligible)
  have hbounds := eligibleFor_bounds env fresh.m_claim.source
  rw [← heligible'] at hbounds
  have htotal' : (claim.finish env).nTotalReceived = (fresh.finish env).nTotalReceived ∨
      (fresh.finish env).nTotalReceived = 0 :=
    htotal.imp (fun h => hset.received.trans (h.trans hset'.received.symm))
      fun h => hset'.received.trans h
  -- the two parts that need the class of the source to be right
  have hlike : (inSnapshot env fresh.m_claim.source = true → claim.m_is_btc = false) →
      Alike (claim.finish env) (fresh.finish env) := by
    intro hclass
    refine alike_finish hclaim fun hin => ?_
    exact (hclass hin).trans hfresh.is_btc.symm
  have heligible : claim.m_peercoin_balances = [] →
      (inSnapshot env fresh.m_claim.source = true → claim.m_is_btc = false) →
      (claim.finish env).getEligible env =
        if 0 < claim.m_eligible then claim.m_eligible else
          eligibleFor env fresh.m_claim.source := by
    intro hnone hclass
    rw [getEligible_finish hnone fun hin => hclass (hclaim ▸ hin), hclaim]
  constructor
  · intro h
    have hnone := (balances_finish_eq_iff hfresh hclaim).mp h.balances
    have hclass := (is_btc_finish_eq_iff hfresh hclaim).mp h.is_btc
    have hverdict := ((hlike hclass).isValid_eq_iff (hset'.answer.trans hanswer) h.eligible
      hbounds.1 hbounds.2 htotal').mp h.isValid
    refine ⟨hnone, ?_, by rwa [hread], ?_, ?_⟩
    · intro hpos
      have hstale := h.eligible
      rw [heligible hnone hclass, if_pos hpos, heligible'] at hstale
      rw [hread, hstale]
    · intro hrejected
      exact hset.answer.symm.trans (hverdict.1 hrejected)
    · intro hok
      exact hset.received.symm.trans_le (hverdict.2 hok)
  · intro h
    have hclass : inSnapshot env fresh.m_claim.source = true → claim.m_is_btc = false := by
      rw [← hread]
      exact h.is_btc
    have hsame : (claim.finish env).getEligible env = (fresh.finish env).getEligible env := by
      rw [heligible h.balances hclass, heligible']
      split_ifs with hpos
      · rw [h.eligible hpos, hread]
      · rfl
    have hlike := hlike hclass
    refine ⟨hlike.getSource, congrArg CClaim.target hlike.m_claim, hlike.source_address,
      hlike.bitcoin_source_address, hlike.target_address,
      (balances_finish_eq_iff hfresh hclaim).mpr h.balances, hsame, hlike.compatible,
      hlike.is_btc, hlike.init, ?_⟩
    apply (hlike.isValid_eq_iff (hset'.answer.trans hanswer) hsame hbounds.1 hbounds.2
      htotal').mpr
    constructor
    · intro hrejected
      exact hset.answer.trans (h.answer hrejected)
    · intro hok
      exact hset.received.trans_le (h.received hok)

end

/-- Reading into an object gives what reading into a cleared one gives exactly if the old
claim in it is harmless. -/
theorem agree_cleared_iff (claim : Claim) (stored : StoredClaim) :
    Agree env ((claim.holding stored).initOver env)
      ((claim.cleared.holding stored).initOver env) ↔ claim.Harmless env stored := by
  have hclaim : (claim.holding stored).m_claim = (claim.cleared.holding stored).m_claim := by
    rw [m_claim_holding, m_claim_holding]
  have hfresh : (claim.cleared.holding stored).Untouched := by
    cases stored with
    | network m_claim => exact ⟨rfl, rfl, le_rfl, rfl, rfl, rfl⟩
    | disk record => exact ⟨rfl, rfl, le_rfl, rfl, rfl, rfl⟩
  have huntouched : (claim.holding stored).Untouched ↔ claim.Untouched := by
    cases stored with
    | network m_claim => exact ⟨fun h => { h with }, fun h => { h with }⟩
    | disk record => exact ⟨fun h => { h with }, fun h => { h with }⟩
  have haddresses : ((claim.cleared.holding stored).setAddresses env).hasEmptyAddress =
      ((claim.holding stored).setAddresses env).hasEmptyAddress := by
    unfold hasEmptyAddress setAddresses
    rw [hclaim]
  unfold Harmless initOver
  rw [haddresses]
  by_cases hsnapshot : (!snapshotIsValid env) = true
  · rw [if_pos hsnapshot, if_pos hsnapshot, if_pos hsnapshot,
      agree_iff_of_untouched hfresh hclaim, huntouched]
    cases stored with
    | network m_claim => rfl
    | disk record => rfl
  · rw [if_neg hsnapshot, if_neg hsnapshot, if_neg hsnapshot]
    by_cases hempty : ((claim.holding stored).setAddresses env).hasEmptyAddress = true
    · rw [if_pos hempty, if_pos hempty, if_pos hempty, ← huntouched]
      have hset : ((claim.cleared.holding stored).setAddresses env).Untouched := { hfresh with }
      have hclaim' : ((claim.holding stored).setAddresses env).m_claim =
          ((claim.cleared.holding stored).setAddresses env).m_claim := hclaim
      rw [agree_iff_of_untouched hset hclaim']
      constructor
      · rintro ⟨h, -⟩
        exact { h with }
      · intro h
        refine ⟨{ h with }, ?_, ?_, ?_⟩
        · exact congrArg (fun m_claim => env.getAddressFromScript m_claim.source) hclaim
        · exact congrArg (fun m_claim => env.getBtcAddressFromScript m_claim.source) hclaim
        · exact congrArg (fun m_claim => env.getAddressFromScript m_claim.target) hclaim
    · rw [if_neg hempty, if_neg hempty, if_neg hempty]
      apply agree_iff_covered hfresh hclaim
      · cases stored with
        | network m_claim => rfl
        | disk record => rfl
      · cases stored with
        | network m_claim => exact .inr rfl
        | disk record => exact .inl rfl

theorem cleared_holding (claim claim' : Claim) (stored : StoredClaim) :
    claim.cleared.holding stored = claim'.cleared.holding stored := by
  cases stored with
  | network m_claim => rfl
  | disk record => rfl

/-- A cleared object may be read into. -/
theorem harmless_cleared (claim : Claim) (stored : StoredClaim) :
    claim.cleared.Harmless env stored := by
  rw [← agree_cleared_iff]
  exact ⟨rfl, rfl, rfl, rfl, rfl, rfl, rfl, rfl, rfl, rfl, rfl⟩

/-- Among any objects, a cleared one included, the result of reading a stream does not depend
on the object exactly if the old claims in them are harmless. -/
theorem unserialize_independent_iff {disk : Bool} {bytes rest : List UInt8} {objects : Set Claim}
    {texts : Texts} (hnull : Claim.null texts ∈ objects)
    (hread : readStoredClaim disk bytes = some (stored, rest)) :
    (∀ object ∈ objects, ∀ object' ∈ objects, ∀ claim claim' : Claim,
        object.unserialize env disk bytes = some (claim, rest) →
        object'.unserialize env disk bytes = some (claim', rest) → Agree env claim claim') ↔
      ∀ object ∈ objects, object.Harmless env stored := by
  have hresult (object : Claim) :
      object.unserialize env disk bytes = some ((object.holding stored).initOver env, rest) :=
    unserialize_eq_some_iff.mpr ⟨stored, hread, rfl⟩
  constructor
  · intro h object hobject
    rw [← agree_cleared_iff, cleared_holding object (Claim.null texts)]
    exact h object hobject _ hnull _ _ (hresult object) (hresult _)
  · intro h object hobject object' hobject' claim claim' hclaim hclaim'
    rw [hresult, Option.some.injEq, Prod.mk.injEq] at hclaim hclaim'
    rw [← hclaim.1, ← hclaim'.1]
    have hagree := (agree_cleared_iff object stored).mpr (h object hobject)
    have hagree' := (agree_cleared_iff object' stored).mpr (h object' hobject')
    rw [cleared_holding object object'] at hagree
    exact hagree.trans hagree'.symm

end Claim

namespace SmallNet

def plainTexts : Texts where
  decodeBase64 _ := some (List.replicate 65 1)
  decodeHexTx _ := none
  adjustedTime := 0

/-- The message of a claim on the source in the snapshot. -/
def snapshotMessage : List UInt8 := serClaim (mkClaim (payToKeyHash 1) (payToKeyHash 3))

/-- The message, read into an object. -/
def readMessage (object : Claim) : Option Claim :=
  (object.unserialize (node false true) false snapshotMessage).map Prod.fst

/-- An object that holds a Bitcoin claim. -/
def bitcoinObject : Claim :=
  .ofCClaim (node false true) (mkClaim (payToKeyHash 2) (payToKeyHash 3))

/-- Two cleared objects that were made at different times. -/
theorem unserialize_independent_null : ∃ claim claim' : Claim,
    (Claim.null plainTexts).unserialize (node false true) false snapshotMessage =
      some (claim, []) ∧
    (Claim.null { plainTexts with adjustedTime := 5 }).unserialize (node false true) false
      snapshotMessage = some (claim', []) ∧
    Claim.Agree (node false true) claim claim' := by
  have hread : readStoredClaim false snapshotMessage =
      some (.network (mkClaim (payToKeyHash 1) (payToKeyHash 3)), []) := by decide +kernel
  have hnull : Claim.null plainTexts ∈ {object : Claim | object = object.cleared} := rfl
  refine ⟨_, _, Claim.unserialize_eq_some_iff.mpr ⟨_, hread, rfl⟩,
    Claim.unserialize_eq_some_iff.mpr ⟨_, hread, rfl⟩, ?_⟩
  refine (Claim.unserialize_independent_iff hnull hread).mpr ?_ _ hnull
    (Claim.null { plainTexts with adjustedTime := 5 }) rfl _ _
    (Claim.unserialize_eq_some_iff.mpr ⟨_, hread, rfl⟩)
    (Claim.unserialize_eq_some_iff.mpr ⟨_, hread, rfl⟩)
  intro object hobject
  rw [hobject]
  exact Claim.harmless_cleared object _

/-- The object that held a Bitcoin claim still says so, and the claim on the snapshot has the
worth of the Bitcoin claim. -/
theorem bitcoin_object_shows : (readMessage (Claim.null plainTexts)).map (fun claim =>
        (claim.m_is_btc, claim.getEligible (node false true))) = some (false, 10000 * COIN) ∧
      (readMessage bitcoinObject).map (fun claim =>
        (claim.m_is_btc, claim.getEligible (node false true))) = some (true, 100 * COIN) := by
  decide +kernel

end SmallNet

end Patchcoin
