import Patchcoin.Consensus.TwoNodes
import Patchcoin.SmallNet

/-!
# What the options of a node change

Two options of a node reach into `checkClaims`.  A node that holds the genesis
key limits the number of payouts of a claim more strictly, and a node with the
lookup service judges Bitcoin claims, which the other nodes let pass.

A node that has fewer of these options accepts whatever a node with more of
them accepts (`Laxer`).  On claims of the snapshot that stay within the number
of payouts reserved for them, the options make no difference.
-/

namespace Patchcoin

open ClaimPool Claim

variable {env env' : Env} {ancestors : IndexChain} {nTimeTx : UInt32} {vClaim : List CClaim}
  {claim claim' : Claim}

/-! ## What does not depend on the options -/

section

variable (hnet : SameNetwork env env')
include hnet

theorem inSnapshot_congr (source : CScript) : inSnapshot env' source = inSnapshot env source := by
  rw [hnet]
  rfl

theorem params_congr : env'.params = env.params := by
  rw [hnet]

section

variable {source : CScript}
    (h : inSnapshot env source = true ∨ env'.options.lookup = env.options.lookup)
include h

/-- What a source may receive depends on the options only for a Bitcoin source. -/
theorem eligibleFor_congr : eligibleFor env' source = eligibleFor env source := by
  have hbalance : snapshotBalance env' source = snapshotBalance env source := by
    rw [hnet]
    rfl
  have haddress : env'.getBtcAddressFromScript source = env.getBtcAddressFromScript source := by
    rw [hnet]
    rfl
  unfold eligibleFor
  rw [inSnapshot_congr hnet, hbalance, haddress]
  rcases h with hinside | hlookup
  · rw [if_pos hinside, if_pos hinside]
  · unfold lookupBalance
    rw [hlookup]

theorem maxOutputsFor_congr : maxOutputsFor env' source = maxOutputsFor env source := by
  unfold maxOutputsFor
  rw [eligibleFor_congr hnet h, params_congr hnet]

end

end

/-- The part of a claim that `init` computes on every node of the network. -/
def Claim.shape (claim : Claim) : Claim := { claim.core with m_eligible := 0, MAX_OUTPUTS := 0 }

theorem Claim.shape_ofCClaim (hnet : SameNetwork env env') (m_claim : CClaim) :
    (ofCClaim env' m_claim).shape = (ofCClaim env m_claim).shape := by
  have hsnapshot : snapshotIsValid env' = snapshotIsValid env := by
    rw [hnet]
    rfl
  have haddresses : ({ m_claim } : Claim).setAddresses env' =
      ({ m_claim } : Claim).setAddresses env := by
    rw [hnet]
    rfl
  have hclassify (claim : Claim) : claim.classify env' = claim.classify env := by
    rw [hnet]
    rfl
  unfold ofCClaim init
  rw [hsnapshot, haddresses, hclassify]
  split_ifs
  · rfl
  · rfl
  · unfold setLimits
    rw [params_congr hnet]
    rfl

theorem Claim.Built.shape_eq (hnet : SameNetwork env env') (hbuilt : claim.Built env)
    (hbuilt' : claim'.Built env') (hclaim : claim'.m_claim = claim.m_claim) :
    claim'.shape = claim.shape := by
  have hcore := congrArg shape hbuilt.core_eq
  have hcore' := congrArg shape hbuilt'.core_eq
  rw [hclaim, shape_ofCClaim hnet, ← hcore] at hcore'
  exact hcore'

theorem Claim.m_is_btc_of_shape_eq (hshape : claim'.shape = claim.shape) :
    claim'.m_is_btc = claim.m_is_btc := by
  have hclass := congrArg m_is_btc hshape
  exact hclass

theorem Claim.getSource_of_shape_eq (hshape : claim'.shape = claim.shape) :
    claim'.getSource = claim.getSource := by
  have hsource := congrArg getSource hshape
  exact hsource

theorem Claim.checkFields_congr (hnet : SameNetwork env env')
    (hshape : claim'.shape = claim.shape) :
    claim'.checkFields env' = claim.checkFields env := by
  have hoptions : claim'.checkFields env' = claim'.checkFields env := by
    rw [hnet]
    rfl
  have hfields := congrArg (checkFields env) hshape
  exact hoptions.trans hfields

/-! ## Validity -/

/-- The balance and the proof of a claim; only the balance is looked up. -/
theorem Claim.checkSnapshotProof_eq_ok_iff (claim : Claim) : claim.checkSnapshotProof env = .OK ↔
      (claim.m_is_btc = true → ∀ getBalance, env.options.lookup = some getBalance →
        0 < getBalance claim.m_bitcoin_source_address) ∧
      (claim.m_compatible = true → claim.m_is_btc = false →
        env.host.messageVerify claim.m_source_address claim.m_signature_string
          claim.m_target_address = true) ∧
      (claim.m_compatible = false → claim.m_is_btc = false → claim.verifyDummyTx env = .OK) := by
  unfold checkSnapshotProof
  cases claim.m_is_btc with
  | true =>
    cases env.options.lookup with
    | none => simp
    | some getBalance => simp
  | false =>
    cases claim.m_compatible with
    | true => simp
    | false => simp

theorem Claim.checkSnapshotProof_of_shape (hnet : SameNetwork env env')
    (hshape : claim'.shape = claim.shape)
    (hlookup : claim.m_is_btc = false ∨ env'.options.lookup = env.options.lookup ∨
      env'.options.lookup = none)
    (h : claim.checkSnapshotProof env = .OK) : claim'.checkSnapshotProof env' = .OK := by
  have hclass := m_is_btc_of_shape_eq hshape
  have hproof : claim'.checkSnapshotProof env = claim.checkSnapshotProof env := by
    have hoptions := congrArg (checkSnapshotProof env) hshape
    exact hoptions
  have hverify : env'.host.messageVerify = env.host.messageVerify := by rw [hnet]
  have hdummy : claim'.verifyDummyTx env' = claim'.verifyDummyTx env := by
    rw [hnet]
    rfl
  rw [← hproof, checkSnapshotProof_eq_ok_iff] at h
  rw [checkSnapshotProof_eq_ok_iff, hverify, hdummy]
  refine ⟨?_, h.2⟩
  intro hbtc getBalance hsome
  rcases hlookup with hsnapshot | hsame | hnone
  · rw [hclass, hsnapshot] at hbtc
    cases hbtc
  · exact h.1 hbtc getBalance (hsame ▸ hsome)
  · rw [hnone] at hsome
    cases hsome

/-- The second node asks for no more than the first one. -/
structure Laxer (env env' : Env) : Prop where
  network : SameNetwork env env'
  electrum : env'.options.electrumVerify = env.options.electrumVerify
  lookup : env'.options.lookup = env.options.lookup ∨ env'.options.lookup = none
  held : env'.options.genesis_key_held = true → env.options.genesis_key_held = true

/-- The second node asks the services of the first one, or none for balances. -/
def SameServices (env env' : Env) : Prop :=
  env'.options.electrumVerify = env.options.electrumVerify ∧
    (env'.options.lookup = env.options.lookup ∨ env'.options.lookup = none)

theorem Laxer.services (h : Laxer env env') : SameServices env env' := ⟨h.electrum, h.lookup⟩

/-- The class of a valid claim is the one of its source. -/
theorem Claim.Built.m_is_btc_of_valid (hbuilt : claim.Built env) (h : (claim.isValid env).2 = .OK) :
    claim.m_is_btc = !inSnapshot env claim.m_claim.source :=
  (hbuilt.worth (m_init_of_checkFields
    ((isValid_eq_ok_iff claim).mp h).fields)).m_is_btc_eq

/-- A claim of the snapshot is valid on all nodes, and a Bitcoin claim on the ones that
ask for no more. -/
theorem Claim.isValid_of_services (hnet : SameNetwork env env')
    (hlookup : inSnapshot env claim.m_claim.source = true ∨ SameServices env env')
    (hbuilt : claim.Built env) (hbuilt' : claim'.Built env')
    (hmessage : claim'.message = claim.message) (h : (claim.isValid env).2 = .OK) :
    (claim'.isValid env').2 = .OK := by
  have hclaim : claim'.m_claim = claim.m_claim := congrArg Prod.fst hmessage
  have hreceived : claim'.nTotalReceived = claim.nTotalReceived := congrArg Prod.snd hmessage
  have hshape := hbuilt.shape_eq hnet hbuilt' hclaim
  have hclass := m_is_btc_of_shape_eq hshape
  obtain ⟨hfields, hproof, hverified, hreward, hcounted⟩ := hbuilt.isValid_iff.mp h
  have hsource := hbuilt.m_is_btc_of_valid h
  -- a node that looks up balances asks the service of the first node
  have hasks (hbtc : claim.m_is_btc = true) (henabled : env'.isLookupEnabled = true) :
      env'.options.electrumVerify = env.options.electrumVerify ∧
        env'.options.lookup = env.options.lookup := by
    rcases hlookup with hinside | ⟨helectrum, hsame | hnone⟩
    · rw [hsource, hinside] at hbtc
      cases hbtc
    · exact ⟨helectrum, hsame⟩
    · rw [Env.isLookupEnabled, hnone] at henabled
      cases henabled
  rw [hbuilt'.isValid_iff, checkFields_congr hnet hshape, hreceived, hclaim, hclass]
  refine ⟨hfields, ?_, ?_, hreward, ?_⟩
  · refine checkSnapshotProof_of_shape hnet hshape ?_ hproof
    exact hlookup.imp (fun hinside => by rw [hsource, hinside]; rfl) And.right
  · intro hbtc henabled
    obtain ⟨helectrum, hsame⟩ := hasks hbtc henabled
    have hstrings : claim'.m_bitcoin_source_address = claim.m_bitcoin_source_address ∧
        claim'.m_signature_string = claim.m_signature_string ∧
        claim'.m_target_address = claim.m_target_address := by
      have haddress := congrArg m_bitcoin_source_address hshape
      have hsignature := congrArg m_signature_string hshape
      have htarget := congrArg m_target_address hshape
      exact ⟨haddress, hsignature, htarget⟩
    rw [helectrum, hstrings.1, hstrings.2.1, hstrings.2.2]
    refine hverified hbtc ?_
    rwa [Env.isLookupEnabled, ← hsame]
  · intro hcounts
    cases hbtc : claim.m_is_btc with
    | false =>
      have hinside : inSnapshot env claim.m_claim.source = true := by simpa [hbtc] using hsource
      rw [eligibleFor_congr hnet (.inl hinside)]
      exact hcounted (.inl hbtc)
    | true =>
      have henabled : env'.isLookupEnabled = true := hcounts.resolve_left (by simp [hbtc])
      obtain ⟨-, hsame⟩ := hasks hbtc henabled
      rw [eligibleFor_congr hnet (.inr hsame)]
      refine hcounted (.inr ?_)
      rwa [Env.isLookupEnabled, ← hsame]

/-! ## Amounts -/

section Amounts

variable {source : CScript} {value : ℤ} {nOutputs : ℕ}
variable {message : CClaim × ℤ}

/-- The limits of a source that is judged the same way on both nodes differ only in the
number of payouts that a holder of the genesis key asks for. -/
theorem Payable.congr (hnet : SameNetwork env env')
    (hsame : inSnapshot env source = true ∨ env'.options.lookup = env.options.lookup)
    (hheld : env'.options.genesis_key_held = true →
      nOutputs + paidBefore env ancestors source + 1 ≤ maxOutputsFor env source)
    (h : Payable env ancestors source value nOutputs) :
    Payable env' ancestors source value nOutputs := by
  have hcountable : Countable env' source ↔ Countable env source := by
    unfold Countable
    rw [inSnapshot_congr hnet]
    rcases hsame with hinside | hlookup
    · simp [hinside]
    · rw [Env.isLookupEnabled, hlookup, ← Env.isLookupEnabled]
  have hreceived : receivedBefore env' ancestors source = receivedBefore env ancestors source := by
    unfold receivedBefore
    simp only [hcountable]
  have hpaid : paidBefore env' ancestors source = paidBefore env ancestors source := by
    unfold paidBefore
    simp only [hcountable]
  refine ⟨?_, ?_, ?_, ?_, ?_, ?_⟩
  · rw [hpaid, params_congr hnet]
    exact h.count_le
  · rw [hpaid, maxOutputsFor_congr hnet hsame]
    exact hheld
  · rw [hreceived]
    exact h.range
  · rw [hreceived]
    exact h.reward_le
  · rw [hreceived, eligibleFor_congr hnet hsame, hcountable]
    exact h.eligible
  · rw [hreceived, eligibleFor_congr hnet hsame, inSnapshot_congr hnet]
    exact h.snapshot

/-- Every claim may be paid once. -/
theorem four_le_maxOutputsFor (env : Env) (source : CScript) :
    4 ≤ maxOutputsFor env source ∧ 4 ≤ maxPossibleOutputs env.params := by
  unfold maxOutputsFor maxPossibleOutputs
  omega

theorem Payable.of_laxer (hlax : Laxer env env') (hvalue : 0 ≤ value)
    (h : Payable env ancestors source value 0) : Payable env' ancestors source value 0 := by
  by_cases hsame : inSnapshot env source = true ∨ env'.options.lookup = env.options.lookup
  · exact h.congr hlax.network hsame fun hkey => h.held (hlax.held hkey)
  · -- the second node does not judge the source
    rw [not_or] at hsame
    have hnone := hlax.lookup.resolve_left hsame.2
    have hnot : ¬ Countable env' source := by
      unfold Countable
      rw [inSnapshot_congr hlax.network, Env.isLookupEnabled, hnone]
      simp [hsame.1]
    have hlimits := four_le_maxOutputsFor env' source
    have hrange := (moneyRange_iff _).mp h.range
    have hreward := h.reward_le
    have hreceived : receivedBefore env' ancestors source = 0 := by
      rw [receivedBefore, if_neg hnot]
    have hpaid : paidBefore env' ancestors source = 0 := by rw [paidBefore, if_neg hnot]
    refine ⟨?_, ?_, ?_, ?_, fun hcountable => absurd hcountable hnot, ?_⟩
    · rw [hpaid]
      omega
    · intro _
      rw [hpaid]
      omega
    · rw [hreceived, moneyRange_iff]
      omega
    · rw [hreceived]
      omega
    · intro hinside
      exact absurd (.inl hinside) hnot

/-- A claim that is valid on both nodes is judged by its payouts. -/
theorem follows_of_payable (hnet : SameNetwork env env')
    (hlookup : inSnapshot env message.1.source = true ∨ SameServices env env')
    (h : Payable env ancestors message.1.source value 0 →
      Payable env' ancestors message.1.source value 0) :
    Follows env env' ancestors Claim.message message value := by
  rintro claim claim' hbuilt hbuilt' rfl hmessage' hvalid count hamounts
  have hclaim : claim'.m_claim = claim.m_claim := congrArg Prod.fst hmessage'
  have hvalid' := isValid_of_services hnet hlookup hbuilt hbuilt' hmessage' hvalid
  refine ⟨hvalid', (checkClaimAmounts_iff_payable hbuilt' hvalid').mpr ?_⟩
  rw [hclaim]
  exact h ((checkClaimAmounts_iff_payable hbuilt hvalid).mp ⟨count, hamounts⟩)

/-- A payout of a claim of the snapshot is judged the same way on all nodes, if it is
within the number of payouts reserved for the claim. -/
theorem follows_of_snapshot (hnet : SameNetwork env env')
    (hinside : inSnapshot env message.1.source = true)
    (hlimit : claimedCount ancestors message.1.source + 1 ≤ maxOutputsFor env message.1.source) :
    Follows env env' ancestors Claim.message message value := by
  refine follows_of_payable hnet (.inl hinside) fun h => h.congr hnet (.inl hinside) fun _ => ?_
  rw [paidBefore, if_pos (.inl hinside), zero_add]
  exact hlimit

end Amounts

/-! ## The claims of the block -/

theorem Claim.message_ofCClaim (m_claim : CClaim) :
    (ofCClaim env m_claim).message = (m_claim, 0) := by
  have hcore := (@built_ofCClaim env m_claim).core_eq
  rw [m_claim_ofCClaim] at hcore
  have hreceived : (ofCClaim env m_claim).nTotalReceived = 0 := by
    rw [← hcore]
    rfl
  rw [message, m_claim_ofCClaim, hreceived]

/-- On every node of the network a claim of the block has the same shape. -/
theorem shape_checkedClaim (hnet : SameNetwork env env') (m_claim : CClaim) :
    (checkedClaim env' m_claim).1.shape = (checkedClaim env m_claim).1.shape := by
  have hclaim (env : Env) : (checkedClaim env m_claim).1.m_claim = m_claim := by
    unfold checkedClaim
    rw [isValid_fst_eq]
    exact m_claim_ofCClaim m_claim
  exact (built_checkedClaim m_claim).shape_eq hnet (built_checkedClaim m_claim)
    ((hclaim env').trans (hclaim env).symm)

theorem blockClaimVerdict_follows (hnet : SameNetwork env env') {m_claim : CClaim}
    (hlookup : inSnapshot env m_claim.source = true ∨ SameServices env env')
    (h : blockClaimVerdict env nTimeTx m_claim = .ok ()) :
    blockClaimVerdict env' nTimeTx m_claim = .ok () := by
  have hclass := m_is_btc_of_shape_eq (shape_checkedClaim hnet m_claim)
  have htime : isBtcAccepted env' nTimeTx = isBtcAccepted env nTimeTx := by
    unfold isBtcAccepted
    rw [params_congr hnet]
  rw [blockClaimVerdict_eq_ok_iff] at h ⊢
  obtain ⟨hvalid, haccepted⟩ := h
  refine ⟨?_, by rw [hclass, htime]; exact haccepted⟩
  refine isValid_of_services hnet ?_ (built_ofCClaim m_claim)
    (built_ofCClaim m_claim) ?_ hvalid
  · rw [m_claim_ofCClaim]
    exact hlookup
  · rw [message_ofCClaim, message_ofCClaim]

theorem Claim.isUnique_of_shape_eq {pool : ClaimPool} (hshape : claim'.shape = claim.shape) :
    pool.isUnique claim' = pool.isUnique claim := by
  have hunique := congrArg pool.isUnique hshape
  exact hunique

section

variable {pool pool' : ClaimPool} (hnet : SameNetwork env env')
    (himage : pool'.image message = pool.image message)
include hnet himage

/-- Whether a claim overlaps with a pool does not depend on the options. -/
theorem isUnique_checkedClaim (m_claim : CClaim) :
    pool'.isUnique (checkedClaim env' m_claim).1 = pool.isUnique (checkedClaim env m_claim).1 := by
  have hshape := shape_checkedClaim hnet m_claim
  have htargets : pool'.image getTarget = pool.image getTarget :=
    image_eq_of_image_eq himage fun _ _ => getTarget_of_message_eq
  rw [isUnique_congr htargets, isUnique_of_shape_eq hshape]

/-- The pools of two nodes with the same messages have the same messages after the
claims of the block. -/
theorem image_mergeAll_congr (vClaim : List CClaim) :
    (pool'.mergeAll env' vClaim).image message =
      (pool.mergeAll env vClaim).image message := by
  induction vClaim generalizing pool pool' with
  | nil => exact himage
  | cons m_claim rest ih =>
    rw [mergeAll_cons, mergeAll_cons]
    apply ih
    have hshape := shape_checkedClaim hnet m_claim
    have hsource := getSource_of_shape_eq hshape
    have hmessage : (checkedClaim env' m_claim).1.message =
        (checkedClaim env m_claim).1.message := by
      unfold checkedClaim
      rw [message_isValid, message_isValid, message_ofCClaim,
        message_ofCClaim]
    unfold merge
    rw [isUnique_checkedClaim hnet himage]
    split_ifs
    · rw [image_insert, image_insert, himage, hsource, hmessage]
    · exact himage

end

/-! ## The two options -/

/-- Two nodes that differ in who holds the genesis key and in who looks up balances; a
balance that is looked up is the true one. -/
structure OptionsDiffer (truth : String → ℤ) (env env' : Env) : Prop where
  network : SameNetwork env env'
  electrum : env'.options.electrumVerify = env.options.electrumVerify
  lookup : env.options.lookup = none ∨ env.options.lookup = some truth
  lookup' : env'.options.lookup = none ∨ env'.options.lookup = some truth

theorem OptionsDiffer.laxer {truth : String → ℤ} (h : OptionsDiffer truth env env')
    (hlookup : env'.isLookupEnabled = true → env.isLookupEnabled = true)
    (hheld : env'.options.genesis_key_held = true → env.options.genesis_key_held = true) :
    Laxer env env' := by
  refine ⟨h.network, h.electrum, ?_, hheld⟩
  rcases h.lookup' with hnone' | htruth'
  · exact .inr hnone'
  · left
    have henabled : env.isLookupEnabled = true :=
      hlookup (by rw [Env.isLookupEnabled, htruth']; rfl)
    rcases h.lookup with hnone | htruth
    · rw [Env.isLookupEnabled, hnone] at henabled
      cases henabled
    · rw [htruth', htruth]

section Verdict

variable {truth : String → ℤ} {pool pool' : ClaimPool} {view : CCoinsView} {tx : CTransaction}
  {claims : Std.ExtTreeMap CScript (CScript × ℤ) compare} {queued_claims : List UInt16}

theorem claimsMatch_start {β : Type} {part : Claim → β} (hsound : pool.Sound env)
    (hsound' : pool'.Sound env') :
    ClaimsMatch env env' part vClaim (pool.mergeAll env vClaim) (pool'.mergeAll env' vClaim)
      ⟨pool, claims, queued_claims⟩ ⟨pool', claims, queued_claims⟩ :=
  ⟨hsound, hsound', rfl, rfl, rfl, rfl⟩

/-- One direction, from what is known about the claims of the block and the claims paid. -/
theorem checkClaims_of_follows (hnet : SameNetwork env env') (hsound : pool.Sound env)
    (hsound' : pool'.Sound env') (hpools : pool'.image message = pool.image message)
    (hblock : ∀ claim ∈ vClaim, inSnapshot env claim.source = true ∨ SameServices env env')
    (hfollows : ∀ txout ∈ tx.vout, ∀ message,
      (pool.mergeAll env vClaim).claimFor txout.scriptPubKey = some message →
      Follows env env' ancestors Claim.message message txout.value)
    (hok : (checkClaims env ancestors view tx nTimeTx vClaim
      ⟨pool, claims, queued_claims⟩).result = .ok ()) :
    (checkClaims env' ancestors view tx nTimeTx vClaim
      ⟨pool', claims, queued_claims⟩).result = .ok () := by
  refine (checkClaims_follows hnet (compares_message env env') (claimsMatch_start hsound hsound')
    ?_ ?_ hfollows hok).1
  · intro claim hclaim
    exact blockClaimVerdict_follows hnet (hblock claim hclaim)
  · intro _ txout _
    exact (partFor_congr getTarget_of_message_eq (image_mergeAll_congr hnet hpools vClaim) _).symm

/-- How the verdicts of two nodes with other options are related.  A node with no more
of the options accepts what the first one accepts; and if only claims of the snapshot
are involved, each within the payouts reserved for it, the verdicts are equal. -/
theorem options_verdicts (hnodes : OptionsDiffer truth env env') (hsound : pool.Sound env)
    (hsound' : pool'.Sound env') (hpools : pool'.image Claim.message = pool.image Claim.message)
    (hvalues : ∀ txout ∈ tx.vout, 0 ≤ txout.value) :
    ((env'.isLookupEnabled = true → env.isLookupEnabled = true) →
      (env'.options.genesis_key_held = true → env.options.genesis_key_held = true) →
      (checkClaims env ancestors view tx nTimeTx vClaim
        ⟨pool, claims, queued_claims⟩).result = .ok () →
      (checkClaims env' ancestors view tx nTimeTx vClaim
        ⟨pool', claims, queued_claims⟩).result = .ok ()) ∧
    ((∀ claim ∈ vClaim, inSnapshot env claim.source = true) →
      (∀ txout ∈ tx.vout, ∀ message,
        (pool.mergeAll env vClaim).claimFor txout.scriptPubKey = some message →
        inSnapshot env message.1.source = true ∧
          claimedCount ancestors message.1.source + 1 ≤ maxOutputsFor env message.1.source) →
      ((checkClaims env ancestors view tx nTimeTx vClaim
          ⟨pool, claims, queued_claims⟩).result = .ok () ↔
        (checkClaims env' ancestors view tx nTimeTx vClaim
          ⟨pool', claims, queued_claims⟩).result = .ok ())) := by
  have hnet := hnodes.network
  have hmerged := image_mergeAll_congr hnet hpools vClaim
  constructor
  · intro hlookup hheld
    have hlax := hnodes.laxer hlookup hheld
    refine checkClaims_of_follows hnet hsound hsound' hpools (fun _ _ => .inr hlax.services) ?_
    intro txout htxout message _
    exact follows_of_payable hnet (.inr hlax.services) fun h =>
      h.of_laxer hlax (hvalues txout htxout)
  · intro hblock hpaid
    constructor
    · refine checkClaims_of_follows hnet hsound hsound' hpools
        (fun claim hclaim => .inl (hblock claim hclaim)) ?_
      intro txout htxout message hmessage
      obtain ⟨hinside, hlimit⟩ := hpaid txout htxout message hmessage
      exact follows_of_snapshot hnet hinside hlimit
    · refine checkClaims_of_follows hnet.symm hsound' hsound hpools.symm ?_ ?_
      · intro claim hclaim
        rw [inSnapshot_congr hnet]
        exact .inl (hblock claim hclaim)
      · intro txout htxout message hmessage
        rw [claimFor, partFor_congr getTarget_of_message_eq hmerged] at hmessage
        obtain ⟨hinside, hlimit⟩ := hpaid txout htxout message hmessage
        refine follows_of_snapshot hnet.symm ?_ ?_
        · rw [inSnapshot_congr hnet]
          exact hinside
        · rw [maxOutputsFor_congr hnet (.inl hinside)]
          exact hlimit

end Verdict

open SmallNet in
theorem options_verdicts_btcBlock : Laxer (node true true) (node false false) ∧
      (checkClaims (node false false) (genesisChain (node false false))
        (second (node false false) btcBlock).view (coinstake btcBlock)
        (txTime (coinstake btcBlock) btcBlock) btcBlock.vClaim ⟨∅, ∅, []⟩).result = .ok () := by
  have hnodes : OptionsDiffer (fun _ => 2000000) (node true true) (node false false) :=
    ⟨rfl, rfl, .inr rfl, .inl rfl⟩
  refine ⟨hnodes.laxer (fun h => absurd h (by decide)) (fun h => absurd h (by decide)), ?_⟩
  refine (options_verdicts hnodes ClaimPool.sound_empty ClaimPool.sound_empty rfl ?_).1
    (fun h => absurd h (by decide)) (fun h => absurd h (by decide)) ?_
  · decide +kernel
  · exact passed_iff.mp (by decide +kernel)

namespace SmallNet

/-- A node of a network with smaller genesis outputs, where the claim of the snapshot may be
paid 14 times, and no claim more than 24 times. -/
def fineNode (genesis_key_held : Bool) : Env :=
  { node genesis_key_held false with params := { params with genesisOutputs := 1000 } }

/-- An index in which 14 blocks have paid one coin each to the claim of the snapshot. -/
def paidOften : IndexChain :=
  (genesisChain (node false false)).flatMap fun entry =>
    List.replicate 14 { entry with nClaims := entry.nClaims.insert (payToKeyHash 1) 1000000 } ++
      [entry]

/-- A block that pays one coin to the claim of the snapshot. -/
def coinBlock : CBlock :=
  payBlock 15 genesisHash 1700000500 0 99999000000 [⟨1000000, payToKeyHash 2⟩]
    [mkClaim (payToKeyHash 1) (payToKeyHash 2)]

end SmallNet

open SmallNet in
/-- A payout of the full reward to a Bitcoin claim is accepted by a node without the
lookup service, and rejected by a node with it.  The 15th payout to a claim is accepted by a
node without the genesis key, and rejected by a node with it. -/
theorem options_change_verdict :
    (OptionsDiffer (fun _ => 2000000) (node false false) (node false true) ∧
      (checkClaims (node false false) (genesisChain (node false false))
        (second (node false false) rewardBlock).view (coinstake rewardBlock)
        (txTime (coinstake rewardBlock) rewardBlock) rewardBlock.vClaim ⟨∅, ∅, []⟩).result =
        .ok () ∧
      (checkClaims (node false true) (genesisChain (node false false))
        (second (node false false) rewardBlock).view (coinstake rewardBlock)
        (txTime (coinstake rewardBlock) rewardBlock) rewardBlock.vClaim ⟨∅, ∅, []⟩).result =
        .error (.invalid .TX_CONSENSUS "bad-claim-exceed-eligible")) ∧
    OptionsDiffer (fun _ => 2000000) (fineNode false) (fineNode true) ∧
      (checkClaims (fineNode false) paidOften
        (second (node false false) coinBlock).view (coinstake coinBlock)
        (txTime (coinstake coinBlock) coinBlock) coinBlock.vClaim ⟨∅, ∅, []⟩).result = .ok () ∧
      (checkClaims (fineNode true) paidOften
        (second (node false false) coinBlock).view (coinstake coinBlock)
        (txTime (coinstake coinBlock) coinBlock) coinBlock.vClaim ⟨∅, ∅, []⟩).result =
        .error (.invalid .TX_CONSENSUS "bad-claim-out-limit") := by
  refine ⟨⟨⟨rfl, rfl, .inl rfl, .inr rfl⟩, passed_iff.mp (by decide +kernel), by decide +kernel⟩,
    ⟨rfl, rfl, .inl rfl, .inl rfl⟩, passed_iff.mp (by decide +kernel), by decide +kernel⟩

end Patchcoin
