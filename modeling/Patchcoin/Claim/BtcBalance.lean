import Patchcoin.Claim.ClaimSet

/-!
# What a Bitcoin balance is worth

The lookup reports a balance in satoshi.  `CalculateEligibleBTC` is made for all of them, up
to twenty-one million bitcoins.  Before it is asked, `GetBitcoinBalance` tests the balance
with `MoneyRange`, whose limit is twenty-one million coins of this network, a hundredth of
that in the smallest unit.  A balance above 210000 bitcoins counts as nothing, and the amount
falls from the full reward to zero there.
-/

namespace Patchcoin

variable {env env' : Env} {claim claim' : Claim} {a b : ℤ}

/-- A Bitcoin claim that `Init` has finished, for whose address the lookup reports a
balance. -/
structure BtcClaim (env : Env) (claim : Claim) (balance : ℤ) : Prop where
  built : claim.Built env
  m_init : claim.m_init = true
  m_is_btc : claim.m_is_btc = true
  balance_eq : env.options.lookup.map (fun getBalance =>
    getBalance claim.m_bitcoin_source_address) = some balance

/-- What a claim on a balance is worth. -/
def btcWorth (balance : ℤ) : ℤ :=
  if balance ≤ MAX_MONEY then min (balance * 50) MAX_CLAIM_REWARD else 0

theorem calculateEligibleBTC_rangedBalance (hnonneg : 0 ≤ a) :
    (calculateEligibleBTC (rangedBalance a)).getD 0 = btcWorth a := by
  unfold btcWorth
  split_ifs with hmoney
  · have hranged : rangedBalance a = a := if_pos ((moneyRange_iff a).mpr ⟨hnonneg, hmoney⟩)
    have hreward : (if MAX_CLAIM_REWARD / 50 < a then MAX_CLAIM_REWARD else a * 50) =
        min (a * 50) MAX_CLAIM_REWARD := by
      split_ifs
      · omega
      · omega
    have hrange : moneyRange (min (a * 50) MAX_CLAIM_REWARD) = true := by
      rw [moneyRange_iff]
      simp only [MAX_CLAIM_REWARD, MAX_MONEY, COIN]
      omega
    unfold calculateEligibleBTC
    rw [hranged, if_neg]
    · dsimp only
      rw [hreward, hrange]
      rfl
    · simp only [MAX_MONEY, COIN] at hmoney
      simp only [MAX_BTC_SATOSHI]
      omega
  · have hranged : rangedBalance a = 0 := by
      refine if_neg fun hrange => hmoney ?_
      exact ((moneyRange_iff a).mp hrange).2
    rw [hranged]
    decide

theorem BtcClaim.getEligible_eq (h : BtcClaim env claim a) (hnonneg : 0 ≤ a) :
    claim.getEligible env = btcWorth a := by
  have hworth := h.built.worth h.m_init
  have houtside : inSnapshot env claim.m_claim.source = false := by
    have hclass := hworth.m_is_btc_eq
    rw [h.m_is_btc] at hclass
    simpa using hclass.symm
  have hbalance : lookupBalance env (env.getBtcAddressFromScript claim.m_claim.source) = a := by
    have hlookup := h.balance_eq
    rw [← (h.built.addresses h.m_init).2.1]
    unfold lookupBalance
    cases hservice : env.options.lookup with
    | none =>
      rw [hservice] at hlookup
      cases hlookup
    | some getBalance =>
      rw [hservice] at hlookup
      exact Option.some.inj hlookup
  rw [hworth.getEligible_eq, eligibleFor, if_neg (by simp [houtside]), hbalance]
  exact calculateEligibleBTC_rangedBalance hnonneg

theorem btcWorth_pos_iff (hpos : 0 < a) : 0 < btcWorth a ↔ a ≤ MAX_MONEY := by
  unfold btcWorth
  have hreward : 0 < MAX_CLAIM_REWARD := by decide
  split_ifs with hmoney
  · omega
  · simp [hmoney]

theorem btcWorth_le_iff (hnonneg : 0 ≤ a) (hle : a ≤ b) :
    btcWorth a ≤ btcWorth b ↔ b ≤ MAX_MONEY ∨ a = 0 ∨ MAX_MONEY < a := by
  unfold btcWorth
  have hreward : 0 < MAX_CLAIM_REWARD := by decide
  by_cases hb : b ≤ MAX_MONEY
  · rw [if_pos hb, if_pos (hle.trans hb)]
    simp only [hb, true_or, iff_true]
    exact min_le_min_right _ (by omega)
  · rw [if_neg hb]
    split_ifs with ha
    · -- the smaller balance counts, the larger one does not
      rw [min_le_iff]
      omega
    · simp [not_le.mp ha]

/-- Of two balances that the lookup reports, the larger one is worth as much as the smaller
one, and positive balances are worth a positive amount within the reward, exactly if the larger
one is within `MAX_MONEY`.  The order alone also holds if the smaller balance is worth nothing
itself. -/
theorem btc_eligible_monotone_iff (h : BtcClaim env claim a) (h' : BtcClaim env' claim' b)
    (hnonneg : 0 ≤ a) (hle : a ≤ b) : ((claim.getEligible env ≤ claim'.getEligible env' ∧
        (0 < a → 0 < claim.getEligible env ∧ claim.getEligible env ≤ MAX_CLAIM_REWARD) ∧
        (0 < b → 0 < claim'.getEligible env' ∧ claim'.getEligible env' ≤ MAX_CLAIM_REWARD)) ↔
      b ≤ MAX_MONEY) ∧
    (claim.getEligible env ≤ claim'.getEligible env' ↔
      b ≤ MAX_MONEY ∨ a = 0 ∨ MAX_MONEY < a) := by
  have hnonneg' : 0 ≤ b := hnonneg.trans hle
  have hbounds := eligibleFor_bounds env claim.m_claim.source
  have hbounds' := eligibleFor_bounds env' claim'.m_claim.source
  rw [← (h.built.worth h.m_init).getEligible_eq, h.getEligible_eq hnonneg] at hbounds
  rw [← (h'.built.worth h'.m_init).getEligible_eq, h'.getEligible_eq hnonneg'] at hbounds'
  rw [h.getEligible_eq hnonneg, h'.getEligible_eq hnonneg']
  refine ⟨?_, btcWorth_le_iff hnonneg hle⟩
  constructor
  · rintro ⟨-, -, hpos⟩
    by_contra hb
    have hzero : 0 < b := (by decide : (0 : ℤ) < MAX_MONEY).trans (not_le.mp hb)
    exact hb ((btcWorth_pos_iff hzero).mp (hpos hzero).1)
  · intro hb
    refine ⟨(btcWorth_le_iff hnonneg hle).mpr (.inl hb), ?_, ?_⟩
    · intro ha
      exact ⟨(btcWorth_pos_iff ha).mpr (hle.trans hb), hbounds.2⟩
    · intro hpos
      exact ⟨(btcWorth_pos_iff hpos).mpr hb, hbounds'.2⟩

namespace SmallNet

/-- A node whose lookup reports the given balance for every address. -/
def richNode (balance : ℤ) : Env :=
  (node false true).withOptions
    { (node false true).options with lookup := some fun _ => balance }

/-- A claim on a Bitcoin source, as the node builds it. -/
def richClaim (balance : ℤ) : Claim :=
  .ofCClaim (richNode balance) (mkClaim (payToKeyHash 2) (payToKeyHash 3))

theorem btcClaim_richClaim {balance : ℤ} (hinit : (richClaim balance).m_init = true)
    (hbtc : (richClaim balance).m_is_btc = true) :
    BtcClaim (richNode balance) (richClaim balance) balance :=
  ⟨Claim.built_ofCClaim _, hinit, hbtc, rfl⟩

/-- Two hundred thousand units and two million of them. -/
theorem btc_eligible_monotone_richNode : (richClaim 200000).getEligible (richNode 200000) ≤
      (richClaim 2000000).getEligible (richNode 2000000) :=
  (btc_eligible_monotone_iff
    (btcClaim_richClaim (by decide +kernel) (by decide +kernel))
    (btcClaim_richClaim (by decide +kernel) (by decide +kernel))
    (by decide) (by decide)).2.mpr (.inl (by decide))

/-- 210000 bitcoins are worth the full reward, and one satoshi more is worth nothing. -/
theorem one_satoshi_more_is_worth_nothing :
    BtcClaim (richNode 21000000000000) (richClaim 21000000000000) 21000000000000 ∧
    BtcClaim (richNode 21000000000001) (richClaim 21000000000001) 21000000000001 ∧
    (21000000000001 : ℤ) ≤ MAX_BTC_SATOSHI ∧
    (richClaim 21000000000000).getEligible (richNode 21000000000000) = MAX_CLAIM_REWARD ∧
    (richClaim 21000000000001).getEligible (richNode 21000000000001) = 0 :=
  ⟨btcClaim_richClaim (by decide +kernel) (by decide +kernel),
    btcClaim_richClaim (by decide +kernel) (by decide +kernel),
    by decide, by decide +kernel, by decide +kernel⟩

end SmallNet

end Patchcoin
