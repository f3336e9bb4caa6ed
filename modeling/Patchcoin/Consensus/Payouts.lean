import Patchcoin.Consensus.ClaimSteps

/-!
# The payouts of a block

While a block is connected, `CheckClaims` collects the payouts in a map from the
source of a claim to the amount.  The invariant `PaidState` says what an entry
of that map stands for: a valid claim of the pool, stored under its own source,
that could afford the amount on top of what earlier blocks had paid.

An entry never changes again, because a second payout of the same source in the
same block is rejected.  So the outputs of a transaction that passed can be
found in the map when the block is done (`Settled`).
-/

namespace Patchcoin

open Claim Std.ExtTreeMap

variable {env : Env} {ancestors : IndexChain} {nTimeTx : UInt32} {vClaim : List CClaim}

/-! ## Claims of the block -/

namespace ClaimPool

variable {pool : ClaimPool} {key : CScript} {entry claim : Claim}

theorem getElem?_merge_cases (h : (pool.merge claim)[key]? = some entry) :
    pool[key]? = some entry ∨ entry = claim := by
  unfold merge at h
  split_ifs at h with hunique
  · rw [getElem?_insert] at h
    split_ifs at h with heq
    · exact .inr (Option.some.inj h).symm
    · exact .inl h
  · exact .inl h

/-- A property of the claims in the map that those of the block have too holds after
merging. -/
theorem forall_mergeAll {P : CClaim → Prop}
    (hpool : ∀ (key : CScript) (entry : Claim), pool[key]? = some entry → P entry.m_claim)
    (hblock : ∀ claim ∈ vClaim, P claim) (key : CScript) (entry : Claim)
    (h : (pool.mergeAll env vClaim)[key]? = some entry) : P entry.m_claim := by
  induction vClaim generalizing pool with
  | nil => exact hpool key entry h
  | cons claim rest ih =>
    refine ih ?_ (fun other hother => hblock other (.tail _ hother)) h
    intro key' entry' hentry'
    rcases getElem?_merge_cases hentry' with hold | rfl
    · exact hpool key' entry' hold
    · have hclaim : (checkedClaim env claim).1.m_claim = claim := by
        unfold checkedClaim
        rw [isValid_fst_eq]
        exact m_claim_ofCClaim claim
      rw [hclaim]
      exact hblock claim (.head _)

end ClaimPool

variable {P : CClaim → Prop} {view : CCoinsView} {source : CScript} {payout : CScript × ℤ}
  {tx : CTransaction} {txout : CTxOut} {st st' : ClaimState} {loop : OutputLoop} {nOutputs : ℕ}
  {value : ℤ}

/-! ## What a source can be paid -/

/-- A valid claim of a sound pool is stored under the source in its message. -/
theorem ClaimPool.Sound.source_of_valid {pool : ClaimPool} (hpool : pool.Sound env)
    {key : CScript} {claim : Claim}
    (hentry : pool[key]? = some claim) (hvalid : (claim.isValid env).2 = .OK) :
    claim.getSource = claim.m_claim.source ∧ key = claim.m_claim.source := by
  have hinit : claim.m_init = true :=
    m_init_of_checkFields ((isValid_eq_ok_iff claim).mp hvalid).fields
  obtain ⟨hbuilt, hkey⟩ := hpool key claim hentry
  have hsource := (hbuilt.worth hinit).getSource_eq
  exact ⟨hsource, (hkey hinit).symm.trans hsource⟩

/-- The node counts the payouts of the source: it is in the snapshot, or the node
verifies the signatures of Bitcoin claims. -/
def Countable (env : Env) (source : CScript) : Prop :=
  inSnapshot env source = true ∨ env.isLookupEnabled = true

instance (env : Env) (source : CScript) : Decidable (Countable env source) :=
  inferInstanceAs (Decidable (_ ∨ _))

/-- What the source has received before the block, as far as it is counted. -/
def receivedBefore (env : Env) (ancestors : IndexChain) (source : CScript) : ℕ :=
  if Countable env source then claimedTotal ancestors source else 0

/-- The number of payouts of the source before the block, as far as they are counted. -/
def paidBefore (env : Env) (ancestors : IndexChain) (source : CScript) : ℕ :=
  if Countable env source then claimedCount ancestors source else 0

/-- What `CheckClaimEligibility` asks of a payout, in terms of the source. -/
structure Payable (env : Env) (ancestors : IndexChain) (source : CScript) (value : ℤ)
    (nOutputs : ℕ) : Prop where
  count_le : nOutputs + paidBefore env ancestors source + 1 ≤ maxPossibleOutputs env.params
  held : env.options.genesis_key_held = true →
    nOutputs + paidBefore env ancestors source + 1 ≤ maxOutputsFor env source
  range : moneyRange (receivedBefore env ancestors source + value) = true
  reward_le : receivedBefore env ancestors source + value ≤ MAX_CLAIM_REWARD
  eligible : Countable env source →
    receivedBefore env ancestors source + value ≤ eligibleFor env source
  snapshot : inSnapshot env source = true → 0 < eligibleFor env source ∧
    receivedBefore env ancestors source ≤ eligibleFor env source

/-- The amounts of a valid claim are accepted exactly if its source can be paid. -/
theorem checkClaimAmounts_iff_payable {claim : Claim} (hbuilt : claim.Built env)
    (hvalid : (claim.isValid env).2 = .OK) :
    (∃ count, checkClaimAmounts env ancestors value (claim.isValid env).1 nOutputs = .ok count) ↔
      Payable env ancestors claim.m_claim.source value nOutputs := by
  have hinit : claim.m_init = true :=
    Claim.m_init_of_checkFields ((Claim.isValid_eq_ok_iff claim).mp hvalid).fields
  have hclaim : (claim.isValid env).1.m_claim = claim.m_claim := by rw [Claim.isValid_fst_eq claim]
  have hworth : Claim.Worth env (claim.isValid env).1 :=
    hbuilt.isValid.worth ((Claim.m_init_isValid claim).trans hinit)
  have hsource := hworth.getSource_eq
  have hclass := hworth.m_is_btc_eq
  have heligible := hworth.getEligible_eq
  have hstored := hworth.m_eligible_eq
  have hmax := hworth.maxOutputs_eq
  have hmax' := hworth.getMaxOutputs_eq
  rw [hclaim] at hsource hclass heligible hstored hmax hmax'
  have hcounted : (claim.isValid env).1.counted = true ↔ Countable env claim.m_claim.source := by
    have hclass' : claim.m_is_btc = !inSnapshot env claim.m_claim.source :=
      (hbuilt.worth hinit).m_is_btc_eq
    rw [Claim.counted, hbuilt.m_electrum_result_eq hvalid, hclass, hclass', Countable]
    cases inSnapshot env claim.m_claim.source <;> simp
  have hreceived : (claim.isValid env).1.receivedBefore ancestors =
      receivedBefore env ancestors claim.m_claim.source := by
    rw [Claim.receivedBefore, receivedBefore, hsource]
    simp only [hcounted]
  have hpaid : (claim.isValid env).1.paidBefore ancestors =
      paidBefore env ancestors claim.m_claim.source := by
    rw [Claim.paidBefore, paidBefore, hsource]
    simp only [hcounted]
  constructor
  · rintro ⟨count, hamounts⟩
    obtain ⟨-, hafford, hsnapshot⟩ := checkClaimAmounts_eq_ok_iff.mp hamounts
    rw [hreceived, hpaid] at hafford
    rw [hclass, heligible, hstored, hreceived] at hsnapshot
    exact ⟨hworth.maxPossible_eq ▸ hafford.count_le, fun hkey => hmax ▸ (hafford.held hkey).1,
      hafford.range, hafford.reward_le,
      fun hcountable => heligible ▸ hafford.eligible (hcounted.mpr hcountable),
      fun hinside => hsnapshot (by simp [hinside])⟩
  · intro h
    refine ⟨_, checkClaimAmounts_eq_ok_iff.mpr ⟨rfl, ?_, ?_⟩⟩
    · rw [hreceived, hpaid]
      exact ⟨hworth.maxPossible_eq ▸ h.count_le, fun hkey => ⟨hmax ▸ h.held hkey,
        hmax' ▸ h.held hkey⟩, h.range, h.reward_le,
        fun hcount => heligible ▸ h.eligible (hcounted.mp hcount)⟩
    · rw [hclass, heligible, hstored, hreceived]
      intro hinside
      exact h.snapshot (by simpa using hinside)

/-! ## The invariant -/

/-- A payout was checked against a claim of the pool. -/
structure PaidFrom (env : Env) (ancestors : IndexChain) (pool : ClaimPool) (source : CScript)
    (value : ℤ) (claim : Claim) : Prop where
  entry : pool[source]? = some claim
  valid : claim.isValid env = (claim, .OK)
  source_eq : claim.getSource = source
  amounts : ∃ nOutputs count,
    checkClaimAmounts env ancestors value claim nOutputs = .ok count

/-- Every payout collected so far was checked, and is stored under its source. -/
structure PaidState (env : Env) (ancestors : IndexChain) (st : ClaimState) : Prop where
  sound : st.g_claims.Sound env
  paid : ∀ (source key : CScript) (value : ℤ), st.claims[source]? = some (key, value) →
    key = source ∧ ∃ claim, PaidFrom env ancestors st.g_claims source value claim

/-- The payouts collected so far stay, with the claims they were checked against. -/
def ClaimState.Keeps (st st' : ClaimState) : Prop :=
  ∀ (source : CScript) (value : ℤ) (claim : Claim), st.claims[source]? = some (source, value) →
    st.g_claims[source]? = some claim →
    st'.claims[source]? = some (source, value) ∧ st'.g_claims[source]? = some claim

theorem ClaimState.Keeps.refl (st : ClaimState) : st.Keeps st :=
  fun _ _ _ hpaid hentry => ⟨hpaid, hentry⟩

theorem ClaimState.Keeps.trans {first second third : ClaimState} (h : first.Keeps second)
    (h' : second.Keeps third) : first.Keeps third := by
  intro source value claim hpaid hentry
  obtain ⟨hpaid', hentry'⟩ := h source value claim hpaid hentry
  exact h' source value claim hpaid' hentry'

/-- The output has an accepted form, or it is a payout that was collected. -/
def Settled (env : Env) (txout : CTxOut) (st : ClaimState) : Prop :=
  txout.scriptPubKey.empty = true ∨
    (isOpReturn txout.scriptPubKey = true ∧ txout.nValue = 0) ∨
    txout.scriptPubKey = env.params.genesisPubKey ∨
    ∃ (source : CScript) (claim : Claim), st.claims[source]? = some (source, txout.value) ∧
      st.g_claims[source]? = some claim ∧ claim.getTarget = txout.scriptPubKey

theorem Settled.of_keeps (h : Settled env txout st) (hkeeps : st.Keeps st') :
    Settled env txout st' := by
  rcases h with hempty | hreturn | hgenesis | ⟨source, claim, hpaid, hentry, htarget⟩
  · exact .inl hempty
  · exact .inr (.inl hreturn)
  · exact .inr (.inr (.inl hgenesis))
  · obtain ⟨hpaid', hentry'⟩ := hkeeps source txout.value claim hpaid hentry
    exact .inr (.inr (.inr ⟨source, claim, hpaid', hentry', htarget⟩))

/-! ## The output loop -/

private theorem contains_of_getElem? {claims : Std.ExtTreeMap CScript (CScript × ℤ) compare}
    (h : claims[source]? = some payout) : claims.contains source = true := by
  rw [contains_eq_isSome_getElem?, h]
  rfl

/-- The form of an output that no claim of the pool pays. -/
theorem settled_of_checkOtherOutput {queue queue' : List UInt16}
    (h : checkOtherOutput env ancestors nTimeTx txout queue = .ok queue') :
    Settled env txout st := by
  unfold checkOtherOutput at h
  split_ifs at h with hformat hreturn
  · exact absurd h (by simp [txConsensus])
  · right; left
    refine ⟨hreturn, ?_⟩
    unfold checkOpReturn at h
    by_contra hvalue
    rw [if_pos hvalue] at h
    exact absurd h (by simp [txConsensus])
  · simp only [checkClaimOutputFormat, hreturn, Bool.not_eq_true', Bool.not_eq_false,
      Bool.or_eq_true, beq_iff_eq] at hformat
    rcases hformat with (hempty | hgenesis) | habsurd
    · exact .inl hempty
    · exact .inr (.inr (.inl hgenesis))
    · cases habsurd

/-- Recording a checked payout of a claim of the pool. -/
theorem PaidState.record (h : PaidState env ancestors st) {key : CScript} {claim : Claim}
    {count : ℕ} (hentry : st.g_claims[key]? = some claim)
    (hfresh : st.claims.contains claim.getSource = false) (hvalid : (claim.isValid env).2 = .OK)
    (hamounts : checkClaimAmounts env ancestors value (claim.isValid env).1 nOutputs = .ok count)
    (hpool : st'.g_claims = st.g_claims.write key (claim.isValid env).1)
    (hclaims : st'.claims = st.claims.insert claim.getSource (key, value)) :
    PaidState env ancestors st' ∧ st.Keeps st' ∧ claim.getSource = key ∧
      st'.claims[key]? = some (key, value) ∧
      st'.g_claims[key]? = some (claim.isValid env).1 := by
  have hinit : claim.m_init = true :=
    m_init_of_checkFields ((isValid_eq_ok_iff claim).mp hvalid).fields
  have hsource : claim.getSource = key := (h.sound key claim hentry).2 hinit
  rw [hsource] at hfresh hclaims
  -- the entries of the two maps after the step
  have hpaid (source : CScript) : st'.claims[source]? =
      if key = source then some (key, value) else st.claims[source]? := by
    rw [hclaims, getElem?_insert]
    simp only [Std.LawfulEqCmp.compare_eq_iff_eq]
  have hclaim (source : CScript) : st'.g_claims[source]? =
      if key = source then some (claim.isValid env).1 else st.g_claims[source]? := by
    rw [hpool, ClaimPool.getElem?_write]
    split_ifs with heq
    · rw [← heq, hentry, Option.map_some]
    · rfl
  have hother {source : CScript} {payout : CScript × ℤ} (hold : st.claims[source]? = some payout) :
      key ≠ source := by
    rintro rfl
    rw [contains_of_getElem? hold] at hfresh
    exact absurd hfresh (by decide)
  refine ⟨⟨?_, ?_⟩, ?_, hsource, ?_, ?_⟩
  · rw [hpool]
    exact h.sound.write hentry Claim.Built.isValid (m_init_isValid claim)
      (getSource_isValid claim)
  · intro source key' value' hentry'
    rw [hpaid] at hentry'
    split_ifs at hentry' with heq
    · subst heq
      obtain ⟨rfl, rfl⟩ := Prod.mk.inj (Option.some.inj hentry')
      refine ⟨rfl, (claim.isValid env).1, ?_, isValid_isValid hvalid, ?_, nOutputs, count,
        hamounts⟩
      · rw [hclaim, if_pos rfl]
      · rw [getSource_isValid, hsource]
    · obtain ⟨rfl, old, hold⟩ := h.paid source key' value' hentry'
      refine ⟨rfl, old, ?_, hold.valid, hold.source_eq, hold.amounts⟩
      rw [hclaim, if_neg heq]
      exact hold.entry
  · intro source value' old hold hentry'
    rw [hpaid, hclaim, if_neg (hother hold), if_neg (hother hold)]
    exact ⟨hold, hentry'⟩
  · rw [hpaid, if_pos rfl]
  · rw [hclaim, if_pos rfl]

/-- One step of the output loop that passes settles its output. -/
theorem PaidState.checkClaimOutput (h : PaidState env ancestors loop.toClaimState)
    (hok : (checkClaimOutput env ancestors nTimeTx txout loop).result = .ok ()) :
    PaidState env ancestors (checkClaimOutput env ancestors nTimeTx txout loop).state.toClaimState ∧
      loop.toClaimState.Keeps
        (checkClaimOutput env ancestors nTimeTx txout loop).state.toClaimState ∧
      Settled env txout
        (checkClaimOutput env ancestors nTimeTx txout loop).state.toClaimState := by
  rcases checkClaimOutput_of_ok hok with
    ⟨-, queue, hother, hstate⟩ | ⟨key, claim, count, hattributed, hfresh, hvalid, hamounts, hstate⟩
  · rw [hstate]
    exact ⟨⟨h.sound, h.paid⟩, .refl _, settled_of_checkOtherOutput hother⟩
  · obtain ⟨hentry, htarget⟩ := ClaimPool.attributed_some hattributed
    rw [hstate]
    obtain ⟨hpaid, hkeeps, -, hpayout, hclaim⟩ := h.record hentry hfresh hvalid hamounts
        (show ({ loop.toClaimState with
            g_claims := loop.g_claims.write key (claim.isValid env).1
            claims := loop.claims.insert claim.getSource
              (key, txout.value) } : ClaimState).g_claims =
          loop.g_claims.write key (claim.isValid env).1 from rfl) rfl
    refine ⟨hpaid, hkeeps, .inr (.inr (.inr ⟨key, _, hpayout, hclaim, ?_⟩))⟩
    rw [getTarget_isValid, htarget]

theorem PaidState.checkClaimOutputs (h : PaidState env ancestors st) {vout : List CTxOut}
    (hok : (checkClaimOutputs env ancestors nTimeTx vout st).result = .ok ()) :
    (PaidState env ancestors (checkClaimOutputs env ancestors nTimeTx vout st).state ∧
      st.Keeps (checkClaimOutputs env ancestors nTimeTx vout st).state) ∧
      ∀ txout ∈ vout,
        Settled env txout (checkClaimOutputs env ancestors nTimeTx vout st).state := by
  have hloop : (Outcome.forEach (Patchcoin.checkClaimOutput env ancestors nTimeTx) vout
      { st with outputs := ∅ }).result = .ok () := hok
  obtain ⟨hpaid, hsettled, -⟩ := Outcome.forEach_forall
    (P := fun loop => PaidState env ancestors loop.toClaimState ∧ st.Keeps loop.toClaimState)
    (Q := fun txout loop => Settled env txout loop.toClaimState)
    (fun txout _ loop hstate hstep => by
      obtain ⟨hpaid, hkeeps, hsettled⟩ := hstate.1.checkClaimOutput hstep
      exact ⟨⟨hpaid, hstate.2.trans hkeeps⟩, hsettled, fun other h => h.of_keeps hkeeps⟩)
    ⟨h, .refl st⟩ hloop
  exact ⟨hpaid, hsettled⟩

/-- A transaction that passes `CheckClaims` in a block with claims is settled output by
output, and the payouts collected before it stay. -/
theorem PaidState.checkClaims (h : PaidState env ancestors st)
    (hok : (checkClaims env ancestors view tx nTimeTx vClaim st).result = .ok ()) :
    PaidState env ancestors (checkClaims env ancestors view tx nTimeTx vClaim st).state ∧
      st.Keeps (checkClaims env ancestors view tx nTimeTx vClaim st).state ∧
      (vClaim ≠ [] → ∀ txout ∈ tx.vout,
        Settled env txout (checkClaims env ancestors view tx nTimeTx vClaim st).state) := by
  by_cases hne : vClaim = []
  · subst hne
    exact ⟨h, .refl st, fun hcontra => absurd rfl hcontra⟩
  obtain ⟨-, -, houtputs⟩ := (checkClaims_ok_iff hne).mp hok
  rw [state_checkClaims_of_ok hne hok]
  have hkeepsMerged : st.Keeps { st with g_claims := st.g_claims.mergeAll env vClaim } :=
    fun _ _ _ hpaid hentry => ⟨hpaid, ClaimPool.getElem?_mergeAll_of_some hentry vClaim⟩
  have hpaidMerged :
      PaidState env ancestors { st with g_claims := st.g_claims.mergeAll env vClaim } := by
    refine ⟨h.sound.mergeAll vClaim, ?_⟩
    intro source key value hentry
    obtain ⟨rfl, claim, hpaid⟩ := h.paid source key value hentry
    exact ⟨rfl, claim, ClaimPool.getElem?_mergeAll_of_some hpaid.entry vClaim, hpaid.valid,
      hpaid.source_eq, hpaid.amounts⟩
  obtain ⟨⟨hpaid, hkeeps⟩, hsettled⟩ := hpaidMerged.checkClaimOutputs houtputs
  exact ⟨hpaid, hkeepsMerged.trans hkeeps, fun _ => hsettled⟩

/-! ## Where payouts and claims come from -/

theorem claims_checkClaimOutput_cases
    (h : (checkClaimOutput env ancestors nTimeTx txout loop).state.claims[source]? = some payout) :
    loop.claims[source]? = some payout ∨ payout.2 = txout.value := by
  cases hattributed : loop.g_claims.attributed txout.scriptPubKey with
  | none =>
    left
    rw [checkClaimOutput_of_none hattributed] at h
    split at h
    · exact h
    · exact h
  | some entry =>
    obtain ⟨key, claim⟩ := entry
    rw [checkClaimOutput_of_some hattributed] at h
    split at h
    · exact .inl h
    · simp only [Outcome.state_pass, getElem?_insert] at h
      split_ifs at h with heq
      · right
        rw [← Option.some.inj h]
      · exact .inl h

/-- A payout that `CheckClaims` adds has the value of an output of the transaction. -/
theorem claims_checkClaims_cases
    (h : (checkClaims env ancestors view tx nTimeTx vClaim st).state.claims[source]? =
      some payout) :
    st.claims[source]? = some payout ∨ ∃ txout ∈ tx.vout, payout.2 = txout.value := by
  by_cases hne : vClaim = []
  · subst hne
    exact .inl h
  rw [checkClaims_of_ne_nil hne] at h
  split at h
  · exact .inl h
  · split at h
    · exact .inl h
    · refine Outcome.forEach_invariant (P := fun loop : OutputLoop => ∀ (source : CScript)
        (payout : CScript × ℤ), loop.claims[source]? = some payout →
          st.claims[source]? = some payout ∨ ∃ txout ∈ tx.vout, payout.2 = txout.value)
        ?_ (fun _ _ hold => .inl hold) source payout h
      intro txout hmem loop hloop source payout hpaid
      rcases claims_checkClaimOutput_cases hpaid with hold | hvalue
      · exact hloop source payout hold
      · exact .inr ⟨txout, hmem, hvalue⟩

/-- Every claim in the map has the property. -/
def ClaimPool.All (P : CClaim → Prop) (pool : ClaimPool) : Prop :=
  ∀ (key : CScript) (entry : Claim), pool[key]? = some entry → P entry.m_claim

theorem ClaimPool.All.of_image_eq {pool pool' : ClaimPool} (h : pool.All P)
    (himage : pool'.image m_claim = pool.image m_claim) : pool'.All P := by
  intro key entry hentry
  have hkey := ClaimPool.image_eq_iff.mp himage key
  rw [hentry, Option.map_some] at hkey
  obtain ⟨old, hold, hclaim⟩ := Option.map_eq_some_iff.mp hkey.symm
  exact hclaim ▸ h key old hold

theorem ClaimPool.All.checkClaims (hpool : st.g_claims.All P) (hblock : ∀ claim ∈ vClaim, P claim) :
    (checkClaims env ancestors view tx nTimeTx vClaim st).state.g_claims.All P := by
  obtain ⟨merged, hmerged, himage⟩ := @checkClaims_pool env ancestors nTimeTx _ m_claim tx
    view (fun claim => by rw [isValid_fst_eq claim]) vClaim st
  refine ClaimPool.All.of_image_eq ?_ himage
  intro key entry hentry
  exact ClaimPool.forall_mergeAll hpool (fun claim hmem => hblock claim (hmerged.subset hmem))
    key entry hentry

end Patchcoin
