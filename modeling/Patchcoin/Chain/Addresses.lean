import Patchcoin.Chain.Caps

/-!
# Payouts of a Bitcoin address

The balance behind a Bitcoin claim is looked up by address, but the payouts are
counted by source script.  An output to a public key and an output to the hash
of that key are two scripts with one address, so the balance of an address can
be paid out once for each of them.

If every Bitcoin claim on the address names the script that
`getScriptForDestination` writes for its destination, there is one such script,
and the cap of that script is the cap of the address.
-/

namespace Patchcoin

open Std.ExtTreeMap List

variable {env : Env} {kernel : Kernel} {chain ancestors : IndexChain}

/-- The total recorded along a chain for the sources with a given Bitcoin address. -/
def claimedForAddress (env : Env) (chain : IndexChain) (address : String) : ℕ :=
  (chain.map fun pindex => ((pindex.nClaims.toList.filter fun entry =>
    env.getBtcAddressFromScript entry.1 == address).map Prod.snd).sum).sum

/-- A Bitcoin claim on the address names the standard script of its destination. -/
def CanonicalFor (env : Env) (address : String) (claim : CClaim) : Prop :=
  env.getBtcAddressFromScript claim.source = address → inSnapshot env claim.source = false →
    ∀ dest, extractDestination env.host.hash160 claim.source = some dest →
      claim.source = getScriptForDestination dest

/-- The claims that a node knows when it connects a block are canonical for the address. -/
structure CanonicalStart (env : Env) (address : String) (st : ConnectState) : Prop where
  sound : st.g_claims.Sound env
  pool : st.g_claims.All (CanonicalFor env address)
  block : ∀ claim ∈ st.block.vClaim, CanonicalFor env address claim

/-! ## The sources of the records -/

/-- A record that a block adds belongs to the source of a claim that was known. -/
theorem connectBlock_record_claim {P : CClaim → Prop} {ctx : Circumstances}
    {st : ConnectState} (hpool : st.g_claims.Sound env) (hall : st.g_claims.All P)
    (hblock : ∀ claim ∈ st.block.vClaim, P claim)
    (hok : (connectBlock env kernel ctx ancestors false st).result = .ok ()) (source : CScript) :
    (connectBlock env kernel ctx ancestors false st).state.pindex.nClaims[source]? =
        st.pindex.nClaims[source]? ∨
      ∃ claim : CClaim, P claim ∧ claim.source = source := by
  obtain ⟨staged, hconnected⟩ := connected_of_ok hok
  obtain ⟨hpaid, -, hrecords⟩ := hconnected.payouts hpool
  have hrecord := hrecords source
  have hallEnd : (connectLoop env ctx ancestors staged).state.g_claims.All P := by
    refine ClaimPool.All.connectLoop (hconnected.g_claims ▸ hall) ?_
    rw [CBlock.vClaim_eq_of_content_eq hconnected.content]
    exact hblock
  cases hentry : (connectLoop env ctx ancestors staged).state.claims[source]? with
  | none =>
    rw [hentry] at hrecord
    exact .inl hrecord
  | some payout =>
    obtain ⟨key, value⟩ := payout
    obtain ⟨rfl, claim, hfrom⟩ := hpaid.paid.paid source key value hentry
    have hvalid : (claim.isValid env).2 = .OK := congrArg Prod.snd hfrom.valid
    have hinit := Claim.m_init_of_checkFields ((Claim.isValid_eq_ok_iff claim).mp hvalid).fields
    have hworth := (hpaid.paid.sound key claim hfrom.entry).1.worth hinit
    exact .inr ⟨claim.m_claim, hallEnd key claim hfrom.entry,
      hworth.getSource_eq.symm.trans hfrom.source_eq⟩

/-- Every source recorded along a chain is the source of a claim that was known. -/
theorem ConnectedChain.record_claim {start : IndexChain → ConnectState → Prop} {P : CClaim → Prop}
    (hchain : ConnectedChain env kernel start chain)
    (hstart : ∀ ancestors st, start ancestors st → st.g_claims.Sound env ∧ st.g_claims.All P ∧
      ∀ claim ∈ st.block.vClaim, P claim) :
    ∀ pindex ∈ chain, ∀ source : CScript, pindex.nClaims[source]? ≠ none →
      ∃ claim : CClaim, P claim ∧ claim.source = source := by
  induction hchain with
  | nil => simp
  | connect _ hst hnew hok ih =>
    refine forall_mem_cons.mpr ⟨?_, ih⟩
    intro source hrecord
    obtain ⟨hpool, hall, hblock⟩ := hstart _ _ hst
    rcases connectBlock_record_claim hpool hall hblock hok source with hsame | hknown
    · rw [hsame, hnew, getElem?_empty] at hrecord
      exact absurd rfl hrecord
    · exact hknown
  | reconnect _ _ hst _ hold hok ihBefore ih =>
    refine forall_mem_cons.mpr ⟨?_, ih⟩
    intro source hrecord
    obtain ⟨hpool, hall, hblock⟩ := hstart _ _ hst
    rcases connectBlock_record_claim hpool hall hblock hok source with hsame | hknown
    · rw [hsame, hold] at hrecord
      exact ihBefore _ (.head _) source hrecord
    · exact hknown

/-! ## Sums by address -/

/-- If one source only has the property, the sum over the property is its record. -/
private theorem sum_filter_le (nClaims : Std.ExtTreeMap CScript ℕ compare) (p : CScript → Bool)
    (source : CScript) (h : ∀ other : CScript, nClaims[other]? ≠ none → p other = true →
      other = source) :
    ((nClaims.toList.filter fun entry => p entry.1).map Prod.snd).sum ≤ nClaims.getD source 0 := by
  have hkeys : ∀ entry ∈ nClaims.toList.filter fun entry => p entry.1,
      entry.1 = source ∧ nClaims[source]? = some entry.2 := by
    rintro ⟨key, value⟩ hmem
    obtain ⟨hentry, hp⟩ := mem_filter.mp hmem
    have hvalue := mem_toList_iff_getElem?_eq_some.mp hentry
    obtain rfl := h key (by simp [hvalue]) hp
    exact ⟨rfl, hvalue⟩
  have hdistinct := (nClaims.distinct_keys_toList).sublist
    (filter_sublist (p := fun entry => p entry.1))
  match hlist : nClaims.toList.filter fun entry => p entry.1 with
  | [] =>
    rw [hlist]
    exact Nat.zero_le _
  | [entry] =>
    rw [hlist] at hkeys ⊢
    rw [getD_eq_getD_getElem?, (hkeys entry (by simp)).2]
    simp
  | first :: second :: rest =>
    -- two entries with one key
    rw [hlist] at hkeys hdistinct
    have hsame : first.1 = second.1 :=
      (hkeys first (by simp)).1.trans (hkeys second (by simp)).1.symm
    refine absurd ?_ (rel_of_pairwise_cons hdistinct (.head _))
    rw [hsame]
    exact Std.ReflCmp.compare_self

theorem claimedForAddress_le {address : String} {source : CScript}
    (h : ∀ pindex ∈ chain, ∀ other : CScript, pindex.nClaims[other]? ≠ none →
      env.getBtcAddressFromScript other = address → other = source) :
    claimedForAddress env chain address ≤ claimedTotal chain source := by
  apply sum_le_sum
  intro pindex hmem
  refine sum_filter_le pindex.nClaims
    (fun other => env.getBtcAddressFromScript other == address) source ?_
  intro other hrecord hp
  exact h pindex hmem other hrecord (by simpa using hp)

theorem claimedForAddress_eq_zero {address : String}
    (h : ∀ pindex ∈ chain, ∀ other : CScript, pindex.nClaims[other]? ≠ none →
      env.getBtcAddressFromScript other ≠ address) :
    claimedForAddress env chain address = 0 := by
  apply sum_eq_zero
  intro total htotal
  obtain ⟨pindex, hmem, rfl⟩ := mem_map.mp htotal
  have hempty : (pindex.nClaims.toList.filter fun entry =>
      env.getBtcAddressFromScript entry.1 == address) = [] := by
    rw [filter_eq_nil_iff]
    rintro ⟨other, value⟩ hentry haddress
    have hvalue := mem_toList_iff_getElem?_eq_some.mp hentry
    exact h pindex hmem other (by simp [hvalue]) (by simpa using haddress)
  rw [hempty]
  rfl

/-! ## One address -/

/-- A script with an address has the destination that the address is written for. -/
theorem extractDestination_of_address {script : CScript} {address : String}
    (h : env.getBtcAddressFromScript script = address) (hne : address ≠ "") :
    ∃ dest, extractDestination env.host.hash160 script = some dest ∧
      env.host.encodeDestination_BTC dest = address := by
  unfold Env.getBtcAddressFromScript at h
  cases hdest : extractDestination env.host.hash160 script with
  | none =>
    rw [hdest] at h
    exact absurd h.symm hne
  | some dest =>
    rw [hdest] at h
    dsimp only at h
    split_ifs at h
    · exact ⟨dest, rfl, h⟩
    · exact absurd h.symm hne

theorem calculateEligibleBTC_nonneg (balance : ℤ) : 0 ≤ (calculateEligibleBTC balance).getD 0 := by
  cases h : calculateEligibleBTC balance with
  | none => exact le_rfl
  | some eligible => exact (calculateEligibleBTC_bounds h).1

/-- A balance that does not count as money is worth nothing. -/
theorem calculateEligibleBTC_rangedBalance_le (balance : ℤ) :
    (calculateEligibleBTC (rangedBalance balance)).getD 0 ≤
      (calculateEligibleBTC balance).getD 0 := by
  unfold rangedBalance
  split_ifs
  · exact le_rfl
  · have hzero : (calculateEligibleBTC 0).getD 0 = 0 := by decide
    rw [hzero]
    exact calculateEligibleBTC_nonneg balance

theorem eligibleFor_le_of_address {getBalance : String → ℤ} {source : CScript} {address : String}
    (hlookup : env.options.lookup = some getBalance)
    (haddress : env.getBtcAddressFromScript source = address)
    (houtside : inSnapshot env source = false) :
    eligibleFor env source ≤ (calculateEligibleBTC (getBalance address)).getD 0 := by
  have hbalance : lookupBalance env address = getBalance address := by
    unfold lookupBalance
    rw [hlookup]
  unfold eligibleFor
  rw [if_neg (by simp [houtside]), haddress, hbalance]
  exact calculateEligibleBTC_rangedBalance_le (getBalance address)

/-- On a node with the lookup service, the sources of one Bitcoin address together
receive at most what the balance of the address is worth, if no script of the
snapshot has the address and the Bitcoin claims on it are canonical. -/
theorem address_payouts_capped {getBalance : String → ℤ} {address : String}
    (hlookup : env.options.lookup = some getBalance) (hne : address ≠ "")
    (hsnapshot : ∀ script, inSnapshot env script = true →
      env.getBtcAddressFromScript script ≠ address)
    (hencode : ∀ dest dest', env.host.encodeDestination_BTC dest = address →
      env.host.encodeDestination_BTC dest' = address → dest = dest')
    (hchain : ConnectedChain env kernel (fun _ => CanonicalStart env address) chain) :
    (claimedForAddress env chain address : ℤ) ≤
      (calculateEligibleBTC (getBalance address)).getD 0 := by
  have hknown := hchain.record_claim fun _ st hst => ⟨hst.sound, hst.pool, hst.block⟩
  -- a recorded source with the address is the standard script of the one destination
  have hstandard : ∀ pindex ∈ chain, ∀ source : CScript, pindex.nClaims[source]? ≠ none →
      env.getBtcAddressFromScript source = address → inSnapshot env source = false ∧
        ∃ dest, env.host.encodeDestination_BTC dest = address ∧
          source = getScriptForDestination dest := by
    intro pindex hmem source hrecord haddress
    have houtside : inSnapshot env source = false := by
      rw [Bool.eq_false_iff]
      exact fun hinside => hsnapshot source hinside haddress
    obtain ⟨dest, hdest, hencoded⟩ := extractDestination_of_address haddress hne
    obtain ⟨claim, hcanonical, rfl⟩ := hknown pindex hmem source hrecord
    exact ⟨houtside, dest, hencoded, hcanonical haddress houtside dest hdest⟩
  by_cases hpaid : ∃ pindex ∈ chain, ∃ source : CScript, pindex.nClaims[source]? ≠ none ∧
      env.getBtcAddressFromScript source = address
  · obtain ⟨pindex, hmem, source, hrecord, haddress⟩ := hpaid
    obtain ⟨houtside, dest, hencoded, hsource⟩ := hstandard pindex hmem source hrecord haddress
    have hone := @claimedForAddress_le env chain address source fun pindex' hmem' other hrecord'
        haddress' => by
      obtain ⟨-, dest', hencoded', hother⟩ := hstandard pindex' hmem' other hrecord' haddress'
      rw [hother, hsource, hencode dest' dest hencoded' hencoded]
    have hcapped := @ConnectedChain.capped env kernel source _ chain hchain
      (fun _ _ hst => hst.sound) (.inr (by simp [Env.isLookupEnabled, hlookup]))
    calc (claimedForAddress env chain address : ℤ)
        ≤ claimedTotal chain source := by exact_mod_cast hone
      _ ≤ eligibleFor env source := hcapped.1
      _ ≤ (calculateEligibleBTC (getBalance address)).getD 0 :=
          eligibleFor_le_of_address hlookup haddress houtside
  · have hnone := @claimedForAddress_eq_zero env chain address fun pindex hmem other hrecord
        haddress => hpaid ⟨pindex, hmem, other, hrecord, haddress⟩
    rw [hnone]
    exact calculateEligibleBTC_nonneg _

namespace SmallNet

/-- One destination has the Bitcoin address of the third key. -/
theorem address_eq_bd {dest : CTxDestination} (h : address "b" dest = "bd") : dest = .PKHash 3 := by
  have hother : "other" ≠ "bd" := by decide
  cases dest with
  | PKHash hash =>
    unfold address at h
    dsimp only at h
    split_ifs at h with hsmall
    · have hletters : ∀ n < 26, "b" ++ String.singleton (Char.ofNat (97 + n)) = "bd" → n = 3 := by
        decide +kernel
      have hnumber : hash = 3 := BitVec.eq_of_toNat_eq (hletters hash.toNat hsmall h)
      rw [hnumber]
    · exact absurd h (by decide)
  | CNoDestination => exact absurd h hother
  | ScriptHash hash => exact absurd h hother
  | WitnessV0ScriptHash hash => exact absurd h hother
  | WitnessV0KeyHash hash => exact absurd h hother
  | WitnessV1Taproot output => exact absurd h hother
  | WitnessUnknown version program => exact absurd h hother

theorem inSnapshot_node {held lookup : Bool} {script : CScript}
    (h : inSnapshot (node held lookup) script = true) :
    script = payToKeyHash 1 ∨ script = payToKeyHash 9 := by
  simp only [inSnapshot, node, snapshot, contains_ofList, map_cons,
    map_nil, contains_cons, contains_nil, Bool.or_false, Bool.or_eq_true,
    beq_iff_eq] at h
  exact h

/-- The claim that the block pays names the hash of the third key. -/
theorem canonicalStart_btcBlock (block : CBlock) (rest : List CBlock)
    (h : block :: rest <:+ [btcBlock, genesisBlock]) : CanonicalStart (node false true) "bd"
      (onTop (reach (node false true) rest).1 (reach (node false true) rest).2.length block) := by
  have hclaim : CanonicalFor (node false true) "bd"
      (mkClaim (payToKeyHash 3) (payToKeyHash 4)) := by
    have hdest : extractDestination (node false true).host.hash160
        (mkClaim (payToKeyHash 3) (payToKeyHash 4)).source = some (.PKHash 3) := by decide +kernel
    intro _ _ dest hextract
    rw [hdest, Option.some.injEq] at hextract
    rw [← hextract]
    decide +kernel
  have hsound : (onTop (reach (node false true) rest).1 (reach (node false true) rest).2.length
      block).g_claims.Sound (node false true) := by
    rw [g_claims_onTop]
    exact sound_reach (node false true) rest
  rcases suffix_cons_iff.mp h with heq | hsuffix
  · obtain ⟨rfl, rfl⟩ := cons.inj heq
    have hempty : (reach (node false true) [genesisBlock]).1.g_claims.toList = [] := by
      decide +kernel
    refine ⟨hsound, ?_, ?_⟩
    · intro key entry hentry
      rw [g_claims_onTop, ← mem_toList_iff_getElem?_eq_some, hempty] at hentry
      exact absurd hentry not_mem_nil
    · rw [block_onTop]
      exact forall_mem_singleton.mpr hclaim
  · rw [suffix_cons_iff, suffix_nil] at hsuffix
    obtain ⟨rfl, rfl⟩ := cons.inj (hsuffix.resolve_right (cons_ne_nil _ _))
    refine ⟨hsound, ?_, ?_⟩
    · intro key entry hentry
      rw [g_claims_onTop] at hentry
      change (∅ : ClaimPool)[key]? = some entry at hentry
      rw [getElem?_empty] at hentry
      cases hentry
    · rw [block_onTop]
      exact forall_mem_nil _

end SmallNet

open SmallNet in
theorem address_payouts_capped_btcBlock :
    claimedForAddress (node false true) (reach (node false true) [btcBlock, genesisBlock]).2 "bd" =
        100000000 ∧
      (claimedForAddress (node false true)
        (reach (node false true) [btcBlock, genesisBlock]).2 "bd" : ℤ) ≤
          (calculateEligibleBTC 2000000).getD 0 := by
  refine ⟨by decide +kernel, ?_⟩
  refine @address_payouts_capped _ _ _ (fun _ => 2000000) _ rfl (by decide) ?_ ?_
    (connectedChain_reach_of (by decide +kernel) canonicalStart_btcBlock)
  · intro script hinside
    rcases inSnapshot_node hinside with rfl | rfl
    · decide +kernel
    · decide +kernel
  · intro dest dest' hencoded hencoded'
    rw [address_eq_bd hencoded, address_eq_bd hencoded']

open SmallNet in
/-- One block pays the balance of an address twice: to its key and to the hash of it. -/
theorem address_paid_twice :
    ConnectedChain (node false true) stakeKernel (fun _ st => st.g_claims.Sound (node false true))
        (reach (node false true) [twoSourcesBlock, genesisBlock]).2 ∧
      (calculateEligibleBTC 2000000).getD 0 = 100000000 ∧
      claimedForAddress (node false true)
        (reach (node false true) [twoSourcesBlock, genesisBlock]).2 "bd" = 200000000 := by
  refine ⟨connectedChain_reach (by decide +kernel), by decide +kernel, by decide +kernel⟩

end Patchcoin
