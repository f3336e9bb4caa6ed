import Patchcoin.Claim.Claim

/-!
# What a claim is worth

Most fields of a claim are computed once, by `init`, from the claim as it was
received; only the cached answer of the signature service and the bookkeeping
of `ConnectBlock` change later.  `Claim.Built` says that a claim was made that
way.  It follows that the class, the limit on the number of payouts and the
eligible amount are functions of the source script (`eligibleFor`), whichever
claim on that source one looks at.
-/

namespace Patchcoin

open Std.ExtTreeMap

variable {balance eligible : ℤ}

/-! ## Eligible amounts -/

theorem calculateEligible_bounds (h : calculateEligible balance = some eligible) :
    0 ≤ eligible ∧ eligible ≤ MAX_CLAIM_REWARD ∧ moneyRange eligible = true := by
  dsimp only [calculateEligible] at h
  split_ifs at h with hbalance hrange
  cases h
  have hmoney : moneyRange (min (balance * 10) MAX_CLAIM_REWARD) = true := by simpa using hrange
  exact ⟨((moneyRange_iff _).mp hmoney).1, min_le_right _ _, hmoney⟩

private theorem btcReward_le (balance : ℤ) :
    (if MAX_CLAIM_REWARD / 50 < balance then MAX_CLAIM_REWARD else balance * 50) ≤
      MAX_CLAIM_REWARD := by
  split_ifs with hlarge
  · exact le_rfl
  · have hwhole : MAX_CLAIM_REWARD = MAX_CLAIM_REWARD / 50 * 50 := by decide
    omega

theorem calculateEligibleBTC_bounds (h : calculateEligibleBTC balance = some eligible) :
    0 ≤ eligible ∧ eligible ≤ MAX_CLAIM_REWARD ∧ moneyRange eligible = true := by
  have hle := btcReward_le balance
  dsimp only [calculateEligibleBTC] at h
  generalize (if MAX_CLAIM_REWARD / 50 < balance then MAX_CLAIM_REWARD else balance * 50) = reward
    at h hle
  split_ifs at h with hbalance hrange
  obtain rfl := Option.some.inj h
  have hmoney : moneyRange reward = true := by simpa using hrange
  exact ⟨((moneyRange_iff _).mp hmoney).1, hle, hmoney⟩

private theorem capEligible_of_bounds
    (h : 0 ≤ eligible ∧ eligible ≤ MAX_CLAIM_REWARD ∧ moneyRange eligible = true) :
    capEligible (some eligible) = eligible := by
  rw [capEligible, if_neg]
  rw [h.2.2, decide_eq_false (not_lt.mpr h.2.1)]
  exact Bool.false_ne_true

theorem capEligible_calculateEligible (balance : ℤ) :
    capEligible (calculateEligible balance) = (calculateEligible balance).getD 0 := by
  cases h : calculateEligible balance with
  | none => rfl
  | some eligible => exact capEligible_of_bounds (calculateEligible_bounds h)

theorem capEligible_calculateEligibleBTC (balance : ℤ) :
    capEligible (calculateEligibleBTC balance) = (calculateEligibleBTC balance).getD 0 := by
  cases h : calculateEligibleBTC balance with
  | none => rfl
  | some eligible => exact capEligible_of_bounds (calculateEligibleBTC_bounds h)

/-- A balance that is out of range counts as nothing. -/
def rangedBalance (balance : ℤ) : ℤ := if moneyRange balance then balance else 0

theorem moneyRange_rangedBalance (balance : ℤ) : moneyRange (rangedBalance balance) = true := by
  unfold rangedBalance
  split_ifs with hrange
  · exact hrange
  · decide

section

variable (env : Env)

/-- The source is in the Peercoin snapshot; every other source counts as Bitcoin. -/
def inSnapshot (source : CScript) : Bool :=
  env.snapshot.scriptPubKeys.contains source ||
    env.snapshot.incompatibleScriptPubKeys.contains source

/-- The balance of a source of the snapshot. -/
def snapshotBalance (source : CScript) : ℤ :=
  match env.snapshot.scriptPubKeys[source]? with
  | some balance => balance
  | none => ((env.snapshot.incompatibleScriptPubKeys.getD source []).map
      fun entry => entry.2.out.value).sum

/-- The balance that the lookup service reports for a Bitcoin address. -/
def lookupBalance (address : String) : ℤ :=
  match env.options.lookup with
  | some getBalance => getBalance address
  | none => 0

/-- What a source may receive in total. -/
def eligibleFor (source : CScript) : ℤ :=
  if inSnapshot env source then
    (calculateEligible (rangedBalance (snapshotBalance env source))).getD 0
  else (calculateEligibleBTC
    (rangedBalance (lookupBalance env (env.getBtcAddressFromScript source)))).getD 0

theorem eligibleFor_bounds (source : CScript) :
    0 ≤ eligibleFor env source ∧ eligibleFor env source ≤ MAX_CLAIM_REWARD := by
  have hzero : (0 : ℤ) ≤ 0 ∧ (0 : ℤ) ≤ MAX_CLAIM_REWARD := by decide
  unfold eligibleFor
  split_ifs with hclass
  · cases h : calculateEligible (rangedBalance (snapshotBalance env source)) with
    | none => exact hzero
    | some eligible =>
      obtain ⟨hnonneg, hle, -⟩ := calculateEligible_bounds h
      exact ⟨hnonneg, hle⟩
  · cases h : calculateEligibleBTC
        (rangedBalance (lookupBalance env (env.getBtcAddressFromScript source))) with
    | none => exact hzero
    | some eligible =>
      obtain ⟨hnonneg, hle, -⟩ := calculateEligibleBTC_bounds h
      exact ⟨hnonneg, hle⟩

/-- The number of payouts that `Init` reserves for a source. -/
def maxOutputsFor (source : CScript) : ℕ :=
  min (genesisOutputsFor env.params (eligibleFor env source) + 4) (maxPossibleOutputs env.params)

end

namespace Claim

variable {env : Env} {claim : Claim} {m_claim : CClaim}

/-! ## Construction -/

@[simp] theorem m_claim_classify (claim : Claim) :
    (claim.classify env).m_claim = claim.m_claim := by
  unfold classify
  split
  · rfl
  · split <;> rfl

@[simp] theorem m_bitcoin_source_address_classify (claim : Claim) :
    (claim.classify env).m_bitcoin_source_address = claim.m_bitcoin_source_address := by
  unfold classify
  split
  · rfl
  · split <;> rfl

@[simp] theorem m_eligible_classify (claim : Claim) :
    (claim.classify env).m_eligible = claim.m_eligible := by
  unfold classify
  split
  · rfl
  · split <;> rfl

theorem m_is_btc_classify (hbtc : claim.m_is_btc = false) :
    (claim.classify env).m_is_btc = !inSnapshot env claim.m_claim.source := by
  unfold classify inSnapshot
  rw [contains_eq_isSome_getElem?, contains_eq_isSome_getElem?]
  cases env.snapshot.scriptPubKeys[claim.m_claim.source]? with
  | some balance => exact hbtc
  | none =>
    cases env.snapshot.incompatibleScriptPubKeys[claim.m_claim.source]? with
    | some utxo => exact hbtc
    | none => rfl

theorem getSource?_classify (hbtc : claim.m_is_btc = false) :
    (claim.classify env).getSource? = some claim.m_claim.source := by
  unfold classify getSource?
  cases env.snapshot.scriptPubKeys[claim.m_claim.source]? with
  | some balance => simp [hbtc]
  | none =>
    cases env.snapshot.incompatibleScriptPubKeys[claim.m_claim.source]? with
    | some utxo => simp [hbtc]
    | none => simp

theorem getPeercoinBalance_classify (hsnapshot : inSnapshot env claim.m_claim.source = true) :
    (claim.classify env).getPeercoinBalance =
      rangedBalance (snapshotBalance env claim.m_claim.source) := by
  unfold classify getPeercoinBalance rangedBalance snapshotBalance
  rw [inSnapshot, contains_eq_isSome_getElem?,
    contains_eq_isSome_getElem?] at hsnapshot
  rw [getD_eq_getD_getElem?]
  cases hcompatible : env.snapshot.scriptPubKeys[claim.m_claim.source]? with
  | some balance => simp
  | none =>
    cases hincompatible : env.snapshot.incompatibleScriptPubKeys[claim.m_claim.source]? with
    | some utxo => simp
    | none => simp [hcompatible, hincompatible] at hsnapshot

theorem getBitcoinBalance_eq (claim : Claim) :
    claim.getBitcoinBalance env =
      rangedBalance (lookupBalance env claim.m_bitcoin_source_address) :=
  rfl

/-- The eligible amount of a freshly classified claim is that of its source. -/
theorem getEligible_classify (claim : Claim) (heligible : claim.m_eligible = 0)
    (hbtc : claim.m_is_btc = false) (haddress : claim.m_bitcoin_source_address =
      env.getBtcAddressFromScript claim.m_claim.source) :
    (claim.classify env).getEligible env = eligibleFor env claim.m_claim.source := by
  unfold getEligible eligibleFor
  rw [if_neg (by rw [m_eligible_classify, heligible]; exact lt_irrefl 0), m_is_btc_classify hbtc]
  cases hsnapshot : inSnapshot env claim.m_claim.source with
  | true =>
    rw [getPeercoinBalance_classify hsnapshot]
    exact capEligible_calculateEligible _
  | false =>
    rw [getBitcoinBalance_eq, m_bitcoin_source_address_classify, haddress]
    exact capEligible_calculateEligibleBTC _

/-- `setLimits` stores the eligible amount, and `getEligible` then returns what is stored. -/
theorem getEligible_setLimits (claim : Claim) :
    (claim.setLimits env).getEligible env = claim.getEligible env := by
  have hstored : (claim.setLimits env).m_eligible = claim.getEligible env := rfl
  by_cases hpos : 0 < claim.getEligible env
  · rw [getEligible, hstored, if_pos hpos]
  · -- nothing is stored, and the amount is computed again from the same data
    have hold : ¬ 0 < claim.m_eligible := by
      intro hold
      rw [getEligible, if_pos hold] at hpos
      exact hpos hold
    rw [getEligible, hstored, if_neg hpos, getEligible, if_neg hold]
    rfl

/-- What `init` computes, when it gets to its end. -/
theorem ofCClaim_of_init (hinit : (ofCClaim env m_claim).m_init = true) :
    snapshotIsValid env = true ∧
      (({ m_claim } : Claim).setAddresses env).hasEmptyAddress = false ∧
      ofCClaim env m_claim =
        ((({ m_claim } : Claim).setAddresses env).classify env).setLimits env := by
  unfold ofCClaim Claim.init at hinit ⊢
  cases hsnapshot : snapshotIsValid env with
  | false => simp [hsnapshot] at hinit
  | true =>
    cases haddress : (({ m_claim } : Claim).setAddresses env).hasEmptyAddress with
    | true =>
      rw [hsnapshot, haddress] at hinit
      cases hinit
    | false => simp

/-! ## Built claims -/

/-- The claim without the cached answer of the signature service. -/
def forgetElectrum (claim : Claim) : Claim := { claim with m_electrum_result := false }

/-- The part of a claim that `init` computes. -/
def core (claim : Claim) : Claim :=
  { claim with m_electrum_result := false, nTime := 0, m_seen := false, nTotalReceived := 0 }

/-- The claim was made by `init`, and a positive answer in its cache was given by
the service. -/
structure Built (env : Env) (claim : Claim) : Prop where
  core_eq : claim.core = ofCClaim env claim.m_claim
  electrum : claim.m_electrum_result = true → claim.m_is_btc = true ∧ env.isLookupEnabled = true ∧
    env.options.electrumVerify claim.m_bitcoin_source_address claim.m_signature_string
      claim.m_target_address = true

/-- What the other modules need to know about a claim that `init` accepted. -/
structure Worth (env : Env) (claim : Claim) : Prop where
  getSource_eq : claim.getSource = claim.m_claim.source
  m_is_btc_eq : claim.m_is_btc = !inSnapshot env claim.m_claim.source
  m_eligible_eq : claim.m_eligible = eligibleFor env claim.m_claim.source
  getEligible_eq : claim.getEligible env = eligibleFor env claim.m_claim.source
  maxPossible_eq : claim.MAX_POSSIBLE_OUTPUTS = maxPossibleOutputs env.params
  maxOutputs_eq : claim.MAX_OUTPUTS = maxOutputsFor env claim.m_claim.source

theorem Worth.getMaxOutputs_eq (h : Worth env claim) :
    claim.getMaxOutputs env = maxOutputsFor env claim.m_claim.source := by
  rw [getMaxOutputs, h.getEligible_eq, h.maxPossible_eq, maxOutputsFor]

theorem worth_ofCClaim (hinit : (ofCClaim env m_claim).m_init = true) :
    Worth env (ofCClaim env m_claim) := by
  obtain ⟨-, -, heq⟩ := ofCClaim_of_init hinit
  set classified := (({ m_claim } : Claim).setAddresses env).classify env with hclassified
  have hclaim : classified.m_claim = m_claim := m_claim_classify _
  have heligible : classified.getEligible env = eligibleFor env m_claim.source :=
    getEligible_classify _ rfl rfl rfl
  have hstored := @getEligible_setLimits env classified
  rw [heq]
  refine ⟨?_, ?_, ?_, ?_, rfl, ?_⟩
  · have hsource : (classified.setLimits env).getSource? = some m_claim.source :=
      getSource?_classify rfl
    rw [getSource, hsource]
    exact hclaim.symm ▸ rfl
  · exact hclaim.symm ▸ m_is_btc_classify rfl
  · exact heligible.trans (hclaim.symm ▸ rfl)
  · rw [hstored, heligible]
    exact hclaim.symm ▸ rfl
  · have hlimit : (classified.setLimits env).MAX_OUTPUTS =
        min (genesisOutputsFor env.params ((classified.setLimits env).getEligible env) + 4)
          (maxPossibleOutputs env.params) := rfl
    rw [hlimit, hstored, heligible]
    exact hclaim.symm ▸ rfl

/-- A claim that was built and initialised is worth what its source is worth. -/
theorem Built.worth (hbuilt : Built env claim) (hinit : claim.m_init = true) : Worth env claim := by
  have hcore : Worth env claim.core := by
    rw [hbuilt.core_eq]
    apply worth_ofCClaim
    rw [← hbuilt.core_eq]
    exact hinit
  exact ⟨hcore.getSource_eq, hcore.m_is_btc_eq, hcore.m_eligible_eq, hcore.getEligible_eq,
    hcore.maxPossible_eq, hcore.maxOutputs_eq⟩

/-! ## Validity -/

theorem askElectrum_eq (claim : Claim) : claim.askElectrum env =
    { claim with m_electrum_result := (claim.askElectrum env).m_electrum_result } := by
  unfold askElectrum
  split_ifs <;> rfl

theorem isValid_fst (claim : Claim) :
    (claim.isValid env).1 = claim ∨ (claim.isValid env).1 = claim.askElectrum env := by
  unfold isValid
  split_ifs
  · exact .inl rfl
  · exact .inl rfl
  · exact .inr rfl
  · exact .inr rfl

/-- `isValid` writes the cached answer only. -/
theorem isValid_fst_eq (claim : Claim) : (claim.isValid env).1 =
    { claim with m_electrum_result := (claim.isValid env).1.m_electrum_result } := by
  rcases @isValid_fst env claim with h | h
  · rw [h]
  · rw [h]
    exact askElectrum_eq claim

theorem forgetElectrum_isValid (claim : Claim) :
    (claim.isValid env).1.forgetElectrum = claim.forgetElectrum := by
  rw [isValid_fst_eq claim]
  rfl

theorem checkAmounts_askElectrum (claim : Claim) :
    (claim.askElectrum env).checkAmounts env = claim.checkAmounts env := by
  rw [askElectrum_eq]
  rfl

theorem isValid_snd (claim : Claim) : (claim.isValid env).2 =
    if claim.checkFields env ≠ .OK then claim.checkFields env
    else if claim.checkSnapshotProof env ≠ .OK then claim.checkSnapshotProof env
    else if claim.refused env = true then .ERR_SIGNATURE_VERIFICATION_FAILED
    else claim.checkAmounts env := by
  unfold Claim.isValid
  simp only [bne_iff_ne]
  split_ifs
  · rfl
  · rfl
  · rfl
  · exact checkAmounts_askElectrum claim

theorem isValid_of_not_init (hinit : claim.m_init = false) :
    (claim.isValid env).2 = .ERR_NOT_INITIALIZED := by
  have hfields : claim.checkFields env = .ERR_NOT_INITIALIZED := by
    unfold checkFields
    rw [hinit]
    rfl
  rw [isValid_snd, hfields]
  rfl

/-- The tests that a valid claim has passed. -/
structure Passed (env : Env) (claim : Claim) : Prop where
  fields : claim.checkFields env = .OK
  proof : claim.checkSnapshotProof env = .OK
  electrum : claim.m_is_btc = true → env.isLookupEnabled = true →
    (claim.askElectrum env).m_electrum_result = true
  amounts : (claim.askElectrum env).checkAmounts env = .OK

theorem refused_eq_false_iff (claim : Claim) : claim.refused env = false ↔
    (claim.m_is_btc = true → env.isLookupEnabled = true →
      (claim.askElectrum env).m_electrum_result = true) := by
  unfold refused
  by_cases hanswer : claim.m_electrum_result = true
  · have hasked : (claim.askElectrum env).m_electrum_result = true := by
      simp [askElectrum, hanswer]
    simp [hanswer, hasked]
  · cases claim.m_is_btc <;> cases env.isLookupEnabled <;> simp [hanswer]

theorem isValid_eq_ok_iff (claim : Claim) : (claim.isValid env).2 = .OK ↔ claim.Passed env := by
  unfold isValid
  constructor
  · intro h
    split_ifs at h with hfields hproof hrefused
    · exact absurd h (by simpa using hfields)
    · exact absurd h (by simpa using hproof)
    · refine ⟨by simpa using hfields, by simpa using hproof, ?_, h⟩
      exact (refused_eq_false_iff claim).mp (by simpa using hrefused)
  · rintro ⟨hfields, hproof, helectrum, hamounts⟩
    rw [if_neg (by simp [hfields]), if_neg (by simp [hproof]),
      if_neg (by simp [(refused_eq_false_iff claim).mpr helectrum])]
    exact hamounts

theorem isValid_of_passed (h : claim.Passed env) :
    claim.isValid env = (claim.askElectrum env, .OK) := by
  unfold isValid
  rw [if_neg (by simp [h.fields]), if_neg (by simp [h.proof]),
    if_neg (by simp [(refused_eq_false_iff claim).mpr h.electrum]), h.amounts]

theorem askElectrum_askElectrum (claim : Claim) :
    (claim.askElectrum env).askElectrum env = claim.askElectrum env := by
  by_cases hask : (claim.m_is_btc && !claim.m_electrum_result && env.isLookupEnabled) = true
  · -- the service gives the same answer when it is asked twice
    have hasked : claim.askElectrum env = { claim with
        m_electrum_result := env.options.electrumVerify claim.m_bitcoin_source_address
          claim.m_signature_string claim.m_target_address } := if_pos hask
    rw [hasked]
    unfold askElectrum
    split_ifs <;> rfl
  · have hasked : claim.askElectrum env = claim := if_neg hask
    rw [hasked, hasked]

theorem Passed.askElectrum (h : claim.Passed env) : (claim.askElectrum env).Passed env := by
  have hsame := @askElectrum_eq env claim
  refine ⟨?_, ?_, ?_, ?_⟩
  · rw [hsame]; exact h.fields
  · rw [hsame]; exact h.proof
  · rw [askElectrum_askElectrum]
    intro hbtc hlookup
    rw [hsame] at hbtc
    exact h.electrum hbtc hlookup
  · rw [askElectrum_askElectrum]
    exact h.amounts

/-- Checking a claim again after it passed changes nothing. -/
theorem isValid_isValid (h : (claim.isValid env).2 = .OK) :
    (claim.isValid env).1.isValid env = ((claim.isValid env).1, .OK) := by
  have hpassed := (isValid_eq_ok_iff claim).mp h
  rw [isValid_of_passed hpassed, isValid_of_passed hpassed.askElectrum, askElectrum_askElectrum]

theorem m_init_of_checkFields (h : claim.checkFields env = .OK) : claim.m_init = true := by
  unfold checkFields at h
  cases hinit : claim.m_init with
  | true => rfl
  | false => simp [hinit] at h

/-- A Bitcoin claim that passes while the lookup is enabled has a verified signature. -/
theorem m_electrum_result_of_ok (h : (claim.isValid env).2 = .OK) (hbtc : claim.m_is_btc = true)
    (hlookup : env.isLookupEnabled = true) : (claim.isValid env).1.m_electrum_result = true := by
  have hpassed := (isValid_eq_ok_iff claim).mp h
  rw [isValid_of_passed hpassed]
  exact hpassed.electrum hbtc hlookup

theorem Built.isValid (hbuilt : Built env claim) : Built env (claim.isValid env).1 := by
  rcases @isValid_fst env claim with h | h
  · rw [h]; exact hbuilt
  · rw [h]
    refine ⟨?_, ?_⟩
    · rw [askElectrum_eq claim]
      exact hbuilt.core_eq
    · unfold askElectrum
      split_ifs with hask
      · intro hanswer
        simp only [Bool.and_eq_true] at hask
        exact ⟨hask.1.1, hask.2, hanswer⟩
      · exact hbuilt.electrum

/-- The total up to which `IsValid` accepts the claim. -/
def receivedLimit (env : Env) (claim : Claim) : ℤ :=
  if claim.m_is_btc && !env.isLookupEnabled then MAX_CLAIM_REWARD else claim.getEligible env

/-- Balances are in range whatever they are, so only the total received is tested. -/
theorem checkAmounts_eq (claim : Claim) (hnonneg : 0 ≤ claim.getEligible env)
    (hle : claim.getEligible env ≤ MAX_CLAIM_REWARD) : claim.checkAmounts env =
      if claim.nTotalReceived ≤ receivedLimit env claim then .OK
      else .ERR_RECEIVED_ABOVE_ELIGIBLE := by
  have hpeercoin : moneyRange claim.getPeercoinBalance = true := moneyRange_rangedBalance _
  have hbitcoin : moneyRange (claim.getBitcoinBalance env) = true := moneyRange_rangedBalance _
  have heligible : moneyRange (claim.getEligible env) = true := by
    rw [moneyRange_iff]
    have hreward : MAX_CLAIM_REWARD ≤ MAX_MONEY := by decide
    exact ⟨hnonneg, hle.trans hreward⟩
  unfold checkAmounts receivedLimit
  rw [hpeercoin, hbitcoin, heligible]
  cases claim.m_is_btc && !env.isLookupEnabled with
  | true =>
    simp only [Bool.not_true, Bool.and_false, Bool.false_eq_true, if_false, if_true]
    split_ifs
    · omega
    · rfl
    · rfl
    · omega
  | false =>
    simp only [Bool.not_true, Bool.and_false, Bool.false_eq_true, if_false]
    split_ifs
    · omega
    · rfl
    · omega
    · rfl
    · rfl
    · omega

/-- The tests on amounts, for a claim that is worth what its source is worth. -/
theorem Worth.checkAmounts_eq_ok_iff (h : Worth env claim) :
    claim.checkAmounts env = .OK ↔ claim.nTotalReceived ≤ MAX_CLAIM_REWARD ∧
      (claim.m_is_btc = false ∨ env.isLookupEnabled = true →
        claim.nTotalReceived ≤ eligibleFor env claim.m_claim.source) := by
  have hbounds := eligibleFor_bounds env claim.m_claim.source
  rw [← h.getEligible_eq] at hbounds ⊢
  rw [checkAmounts_eq claim hbounds.1 hbounds.2]
  unfold receivedLimit
  cases claim.m_is_btc with
  | false =>
    simp only [Bool.false_and, Bool.false_eq_true, if_false, true_or, forall_const,
      ite_eq_left_iff, reduceCtorEq, imp_false, not_not]
    exact ⟨fun hle => ⟨hle.trans hbounds.2, hle⟩, fun hle => hle.2⟩
  | true =>
    cases env.isLookupEnabled with
    | false => simp
    | true =>
      simp only [Bool.not_true, Bool.and_false, Bool.false_eq_true, if_false, or_true,
        forall_const, ite_eq_left_iff, reduceCtorEq, imp_false, not_not]
      exact ⟨fun hle => ⟨hle.trans hbounds.2, hle⟩, fun hle => hle.2⟩

/-- What a valid claim has passed, in terms of its message and the sum it has received;
the cached answer does not matter. -/
theorem Built.isValid_iff (hbuilt : Built env claim) : (claim.isValid env).2 = .OK ↔
      claim.checkFields env = .OK ∧ claim.checkSnapshotProof env = .OK ∧
      (claim.m_is_btc = true → env.isLookupEnabled = true →
        env.options.electrumVerify claim.m_bitcoin_source_address claim.m_signature_string
          claim.m_target_address = true) ∧
      claim.nTotalReceived ≤ MAX_CLAIM_REWARD ∧
      (claim.m_is_btc = false ∨ env.isLookupEnabled = true →
        claim.nTotalReceived ≤ eligibleFor env claim.m_claim.source) := by
  have hasked : (claim.askElectrum env).checkAmounts env = claim.checkAmounts env := by
    rw [askElectrum_eq claim]
    rfl
  have helectrum (hbtc : claim.m_is_btc = true) (hlookup : env.isLookupEnabled = true) :
      (claim.askElectrum env).m_electrum_result = true ↔
        env.options.electrumVerify claim.m_bitcoin_source_address claim.m_signature_string
          claim.m_target_address = true := by
    unfold askElectrum
    by_cases hcached : claim.m_electrum_result = true
    · rw [if_neg (by simp [hcached])]
      simp [hcached, (hbuilt.electrum hcached).2.2]
    · rw [if_pos (by simp [hcached, hbtc, hlookup])]
  rw [isValid_eq_ok_iff]
  constructor
  · rintro ⟨hfields, hproof, hanswer, hamounts⟩
    have hworth := hbuilt.worth (m_init_of_checkFields hfields)
    rw [hasked, hworth.checkAmounts_eq_ok_iff] at hamounts
    exact ⟨hfields, hproof, fun hbtc hlookup => (helectrum hbtc hlookup).mp (hanswer hbtc hlookup),
      hamounts⟩
  · rintro ⟨hfields, hproof, hverified, hamounts⟩
    have hworth := hbuilt.worth (m_init_of_checkFields hfields)
    refine ⟨hfields, hproof, fun hbtc hlookup =>
      (helectrum hbtc hlookup).mpr (hverified hbtc hlookup), ?_⟩
    rw [hasked, hworth.checkAmounts_eq_ok_iff]
    exact hamounts

theorem core_classify (claim : Claim) : (claim.classify env).core = claim.core.classify env := by
  unfold classify
  have hsource : claim.core.m_claim.source = claim.m_claim.source := rfl
  rw [hsource]
  split
  · rfl
  · split <;> rfl

theorem m_claim_ofCClaim (m_claim : CClaim) : (ofCClaim env m_claim).m_claim = m_claim := by
  unfold ofCClaim Claim.init
  split_ifs
  · rfl
  · rfl
  · exact m_claim_classify _

theorem built_ofCClaim (m_claim : CClaim) : Built env (ofCClaim env m_claim) := by
  have hcore : (ofCClaim env m_claim).core = ofCClaim env m_claim := by
    unfold ofCClaim Claim.init
    split_ifs
    · rfl
    · rfl
    · exact congrArg (setLimits env) (core_classify _)
  refine ⟨by rw [m_claim_ofCClaim]; exact hcore, fun hanswer => ?_⟩
  have hnever : (ofCClaim env m_claim).m_electrum_result = false := by
    rw [← hcore]
    rfl
  rw [hnever] at hanswer
  cases hanswer

/-- A claim that passes also passed when it was new, before anything had been paid. -/
theorem Built.isValid_ofCClaim (hbuilt : Built env claim) (h : (claim.isValid env).2 = .OK) :
    ((ofCClaim env claim.m_claim).isValid env).2 = .OK := by
  have hnew : Built env claim.core := by
    rw [hbuilt.core_eq]
    exact built_ofCClaim claim.m_claim
  obtain ⟨hfields, hproof, hverified, -⟩ := hbuilt.isValid_iff.mp h
  have hpositive : (0 : ℤ) ≤ MAX_CLAIM_REWARD := by decide
  rw [← hbuilt.core_eq, hnew.isValid_iff]
  exact ⟨hfields, hproof, hverified, hpositive, fun _ => (eligibleFor_bounds env _).1⟩

/-- The cached answer after a claim has passed. -/
theorem Built.m_electrum_result_eq (hbuilt : Built env claim) (h : (claim.isValid env).2 = .OK) :
    (claim.isValid env).1.m_electrum_result = (claim.m_is_btc && env.isLookupEnabled) := by
  have hclass : (claim.isValid env).1.m_is_btc = claim.m_is_btc := by rw [isValid_fst_eq claim]
  cases hanswer : (claim.isValid env).1.m_electrum_result with
  | true =>
    obtain ⟨hbtc, hlookup, -⟩ := hbuilt.isValid.electrum hanswer
    rw [← hclass, hbtc, hlookup]
    rfl
  | false =>
    symm
    rw [Bool.and_eq_false_iff]
    by_contra hboth
    rw [not_or, Bool.not_eq_false, Bool.not_eq_false] at hboth
    rw [m_electrum_result_of_ok h hboth.1 hboth.2] at hanswer
    cases hanswer

end Claim

end Patchcoin
