import Patchcoin.Consensus.Claims

/-!
# What the steps of `checkClaims` can do

One statement for each loop body says everything it can do: what it writes in
every case, and what has been tested when it passes.  The later modules use
these and never unfold the loops again.

The pool changes in two ways only.  The insert loop adds claims that do not
overlap with the ones in the map (`ClaimPool.merge`), and the verdict on a claim
of the block does not depend on the map.  The output loop writes the cached
answer of the signature service into the claims that it checks.
-/

namespace Patchcoin

open Std.ExtTreeMap Claim Outcome

variable {env : Env} {ancestors : IndexChain} {nTimeTx : UInt32}

/-! ## Sound pools -/

/-- Every claim in the map was built, and is stored under its source. -/
def ClaimPool.Sound (env : Env) (pool : ClaimPool) : Prop :=
  ∀ (key : CScript) (claim : Claim), pool[key]? = some claim →
    claim.Built env ∧ (claim.m_init = true → claim.getSource = key)

namespace ClaimPool

variable {pool pool' : ClaimPool} {claim : Claim} {key : CScript}
variable {entry value : Claim} {vClaim : List CClaim}

theorem Sound.insert (hpool : pool.Sound env) (hbuilt : claim.Built env) :
    ClaimPool.Sound env (pool.insert claim.getSource claim) := by
  intro key other hentry
  rw [getElem?_insert] at hentry
  split_ifs at hentry with heq
  · cases hentry
    exact ⟨hbuilt, fun _ => Std.LawfulEqCmp.eq_of_compare heq⟩
  · exact hpool key other hentry

/-- A new value for a claim keeps the pool sound if it is still the claim that `init`
made. -/
theorem Sound.replace (hpool : pool.Sound env) (hentry : pool[key]? = some claim)
    (hbuilt : claim.Built env → value.Built env) (hinit : value.m_init = claim.m_init)
    (hsource : value.getSource = claim.getSource) :
    ClaimPool.Sound env (pool.insert key value) := by
  intro other found hfound
  rw [getElem?_insert] at hfound
  split_ifs at hfound with heq
  · cases hfound
    obtain rfl : key = other := Std.LawfulEqCmp.eq_of_compare heq
    obtain ⟨hold, hkey⟩ := hpool key claim hentry
    exact ⟨hbuilt hold, fun h => hsource.trans (hkey (hinit ▸ h))⟩
  · exact hpool other found hfound

theorem Sound.write (hpool : pool.Sound env) (hentry : pool[key]? = some claim)
    (hbuilt : claim.Built env → value.Built env) (hinit : value.m_init = claim.m_init)
    (hsource : value.getSource = claim.getSource) : ClaimPool.Sound env (pool.write key value) := by
  unfold ClaimPool.write
  split_ifs
  · exact hpool.replace hentry hbuilt hinit hsource
  · exact hpool

theorem sound_empty : ClaimPool.Sound env ∅ := by
  intro key claim hentry
  rw [getElem?_empty] at hentry
  cases hentry

/-- A claim that the node takes from a message keeps the pool sound. -/
theorem Sound.insertClaim (hpool : pool.Sound env) (hbuilt : claim.Built env) :
    ClaimPool.Sound env (pool.insertClaim env claim).1 := by
  unfold ClaimPool.insertClaim
  dsimp only
  split_ifs with hrefused
  · exact hpool
  · intro key other hentry
    rw [getElem?_insertIfNew] at hentry
    split_ifs at hentry with hnew
    · cases hentry
      exact ⟨hbuilt.isValid, fun _ => Std.LawfulEqCmp.eq_of_compare hnew.1⟩
    · exact hpool key other hentry

/-! ## Merging the claims of the block -/

/-- The pool after one claim of the block: it is added if it does not overlap. -/
def merge (pool : ClaimPool) (claim : Claim) : ClaimPool :=
  if pool.isUnique claim then pool.insert claim.getSource claim else pool

/-- The pool after the claims of the block. -/
def mergeAll (env : Env) (pool : ClaimPool) (vClaim : List CClaim) : ClaimPool :=
  vClaim.foldl (fun pool claim => pool.merge (checkedClaim env claim).1) pool

@[simp] theorem mergeAll_nil (pool : ClaimPool) : pool.mergeAll env [] = pool := rfl

@[simp] theorem mergeAll_cons (pool : ClaimPool) (claim : CClaim) (rest : List CClaim) :
    pool.mergeAll env (claim :: rest) =
      (pool.merge (checkedClaim env claim).1).mergeAll env rest := by
  unfold mergeAll
  rw [List.foldl_cons]

theorem Sound.merge (hpool : pool.Sound env) (hbuilt : claim.Built env) :
    (pool.merge claim).Sound env := by
  unfold ClaimPool.merge
  split_ifs
  · exact hpool.insert hbuilt
  · exact hpool

theorem built_checkedClaim (claim : CClaim) : (checkedClaim env claim).1.Built env :=
  (built_ofCClaim claim).isValid

theorem Sound.mergeAll (hpool : pool.Sound env) (vClaim : List CClaim) :
    (pool.mergeAll env vClaim).Sound env := by
  induction vClaim generalizing pool with
  | nil => exact hpool
  | cons claim rest ih => exact ih (hpool.merge (built_checkedClaim claim))

theorem merge_of_not_isUnique (h : pool.isUnique claim = false) : pool.merge claim = pool := by
  unfold merge
  rw [h]
  rfl

theorem getElem?_merge_of_some (hentry : pool[key]? = some entry) (claim : Claim) :
    (pool.merge claim)[key]? = some entry := by
  unfold merge
  split_ifs with hunique
  · have hkey := ((isUnique_iff.mp hunique).2 key entry hentry).1
    rw [getElem?_insert, if_neg]
    · exact hentry
    · intro heq
      exact hkey (Std.LawfulEqCmp.eq_of_compare heq).symm
  · exact hentry

/-- Merging keeps the claims that are in the map. -/
theorem getElem?_mergeAll_of_some (hentry : pool[key]? = some entry) (vClaim : List CClaim) :
    (pool.mergeAll env vClaim)[key]? = some entry := by
  induction vClaim generalizing pool with
  | nil => exact hentry
  | cons claim rest ih =>
    rw [mergeAll_cons]
    exact ih (getElem?_merge_of_some hentry _)

theorem extends_mergeAll (pool : ClaimPool) (vClaim : List CClaim) :
    (pool.mergeAll env vClaim).Extends pool :=
  fun _ entry hentry => ⟨entry, getElem?_mergeAll_of_some hentry vClaim, rfl⟩

theorem not_isUnique_merge (pool : ClaimPool) (claim : Claim) :
    (pool.merge claim).isUnique claim = false := by
  unfold merge
  split_ifs with hunique
  · rw [Bool.eq_false_iff]
    intro h
    refine ((isUnique_iff.mp h).2 claim.getSource claim ?_).1 rfl
    exact getElem?_insert_self
  · exact Bool.eq_false_iff.mpr hunique

/-- After the insert loop every claim of the block overlaps with the map. -/
theorem not_isUnique_mergeAll (pool : ClaimPool) {claim : CClaim} (hmem : claim ∈ vClaim) :
    (pool.mergeAll env vClaim).isUnique (checkedClaim env claim).1 = false := by
  induction vClaim generalizing pool with
  | nil => exact absurd hmem List.not_mem_nil
  | cons other rest ih =>
    rcases List.mem_cons.mp hmem with rfl | hrest
    · rw [Bool.eq_false_iff]
      intro h
      have hfirst := (extends_mergeAll _ rest).isUnique h
      exact absurd hfirst (Bool.eq_false_iff.mp (not_isUnique_merge pool _))
    · exact ih _ hrest

/-- Claims that overlap with the map are not added. -/
theorem mergeAll_eq_self (h : ∀ claim ∈ vClaim, pool.isUnique (checkedClaim env claim).1 = false) :
    pool.mergeAll env vClaim = pool := by
  induction vClaim with
  | nil => rfl
  | cons claim rest ih =>
    rw [mergeAll_cons, merge_of_not_isUnique (h claim (.head _))]
    exact ih fun other hother => h other (.tail _ hother)

/-- A pool with the sources and targets of a merged one takes no further claim of
the block. -/
theorem mergeAll_of_image_eq {merged : ClaimPool}
    (h : merged.image getTarget = (pool.mergeAll env vClaim).image getTarget) :
    merged.mergeAll env vClaim = merged := by
  apply mergeAll_eq_self
  intro claim hmem
  rw [isUnique_congr h]
  exact not_isUnique_mergeAll pool hmem

end ClaimPool

variable {vClaim : List CClaim}

/-! ## The insert loop -/

theorem insertIfUnique_eq {pool : ClaimPool} {claim : Claim}
    (hvalid : claim.isValid env = (claim, .OK)) :
    insertIfUnique env pool claim = (pool.merge claim, true) := by
  unfold insertIfUnique ClaimPool.merge
  split_ifs with hunique
  · rw [ClaimPool.insertClaim_of_isUnique hvalid hunique]
  · rfl

/-- What the insert loop tests on a claim of the block, whatever the map holds. -/
def blockClaimVerdict (env : Env) (nTimeTx : UInt32) (claim : CClaim) : Except TxFail Unit :=
  if (checkedClaim env claim).2 ≠ .OK then txConsensus "bad-claim-invalid"
  else if (checkedClaim env claim).1.m_is_btc && !isBtcAccepted env nTimeTx then
    txConsensus "bad-claim-btc-time"
  else .ok ()

theorem blockClaimVerdict_eq_ok_iff {claim : CClaim} :
    blockClaimVerdict env nTimeTx claim = .ok () ↔ (checkedClaim env claim).2 = .OK ∧
      ((checkedClaim env claim).1.m_is_btc = true → isBtcAccepted env nTimeTx = true) := by
  unfold blockClaimVerdict
  split_ifs with hinvalid htime
  · simp [txConsensus, hinvalid]
  · simp only [Bool.and_eq_true, Bool.not_eq_true'] at htime
    simp [txConsensus, htime]
  · simp only [Bool.and_eq_true, Bool.not_eq_true', not_and, Bool.not_eq_false] at htime
    simp only [ne_eq, not_not] at hinvalid
    exact ⟨fun _ => ⟨hinvalid, htime⟩, fun _ => rfl⟩

/-- The step of the insert loop: a valid claim is merged, and nothing else happens. -/
theorem insertBlockClaim_eq (claim : CClaim) (pool : ClaimPool) :
    insertBlockClaim env nTimeTx claim pool =
      ⟨if (checkedClaim env claim).2 = .OK then pool.merge (checkedClaim env claim).1 else pool,
        blockClaimVerdict env nTimeTx claim⟩ := by
  unfold insertBlockClaim blockClaimVerdict
  by_cases hok : (checkedClaim env claim).2 = .OK
  · have hvalid : (checkedClaim env claim).1.isValid env = ((checkedClaim env claim).1, .OK) :=
      isValid_isValid hok
    rw [if_neg (not_not_intro hok), if_neg (not_not_intro hok), if_pos hok,
      insertIfUnique_eq hvalid]
    dsimp only
    rw [if_neg (by decide)]
    split_ifs
    · rfl
    · rfl
  · rw [if_pos hok, if_pos hok, if_neg hok]
    rfl

/-- The insert loop merges the claims of the block up to the one where it stops. -/
theorem insertBlockClaims_state (vClaim : List CClaim) (pool : ClaimPool) :
    ∃ merged, merged <+: vClaim ∧
      (insertBlockClaims env nTimeTx vClaim pool).state = pool.mergeAll env merged := by
  unfold insertBlockClaims
  induction vClaim generalizing pool with
  | nil => exact ⟨[], List.nil_prefix, rfl⟩
  | cons claim rest ih =>
    rw [forEach_cons, insertBlockClaim_eq]
    cases hverdict : blockClaimVerdict env nTimeTx claim with
    | error failure =>
      by_cases hok : (checkedClaim env claim).2 = .OK
      · refine ⟨[claim], List.prefix_append [claim] rest, ?_⟩
        simp [andThen, hok]
      · refine ⟨[], List.nil_prefix, ?_⟩
        simp [andThen, hok]
    | ok value =>
      have hok := (blockClaimVerdict_eq_ok_iff.mp hverdict).1
      obtain ⟨merged, hmerged, hstate⟩ := ih (pool.merge (checkedClaim env claim).1)
      refine ⟨claim :: merged, List.cons_prefix_cons.mpr ⟨rfl, hmerged⟩, ?_⟩
      rw [if_pos hok, ClaimPool.mergeAll_cons, ← hstate]
      rfl

theorem insertBlockClaims_ok_iff {pool : ClaimPool} :
    (insertBlockClaims env nTimeTx vClaim pool).result = .ok () ↔
      ∀ claim ∈ vClaim, blockClaimVerdict env nTimeTx claim = .ok () := by
  unfold insertBlockClaims
  induction vClaim generalizing pool with
  | nil => simp
  | cons claim rest ih =>
    rw [forEach_cons_eq_ok_iff, ih, insertBlockClaim_eq, List.forall_mem_cons]

theorem insertBlockClaims_state_of_ok {pool : ClaimPool}
    (hok : (insertBlockClaims env nTimeTx vClaim pool).result = .ok ()) :
    (insertBlockClaims env nTimeTx vClaim pool).state = pool.mergeAll env vClaim := by
  have hverdicts := insertBlockClaims_ok_iff.mp hok
  unfold insertBlockClaims at hok ⊢
  induction vClaim generalizing pool with
  | nil => rfl
  | cons claim rest ih =>
    obtain ⟨hfirst, hrest⟩ := forEach_cons_eq_ok_iff.mp hok
    have hvalid := (blockClaimVerdict_eq_ok_iff.mp (hverdicts claim (.head _))).1
    rw [state_forEach_cons_of_ok hfirst, ClaimPool.mergeAll_cons]
    rw [insertBlockClaim_eq, if_pos hvalid] at hrest ⊢
    exact ih hrest fun other hother => hverdicts other (.tail _ hother)

/-! ## Amounts -/

theorem Claim.receivedLoop_eq (claim : Claim) (chain : IndexChain) (received : ℤ) (outputs : ℕ) :
    claim.receivedLoop chain received outputs =
      (received + claimedTotal chain claim.getSource,
        outputs + claimedCount chain claim.getSource) := by
  induction chain generalizing received outputs with
  | nil => simp [receivedLoop]
  | cons pindex rest ih =>
    rw [receivedLoop, claimedTotal_cons, claimedCount_cons,
      getD_eq_getD_getElem?, contains_eq_isSome_getElem?]
    cases pindex.nClaims[claim.getSource]? with
    | none => simp [ih]
    | some value =>
      simp only [ih, Option.getD_some, Option.isSome_some, if_true, Nat.cast_add]
      refine Prod.ext ?_ ?_
      · dsimp only; omega
      · dsimp only; omega

/-- The payouts of earlier blocks are counted against the claim.  This is left out
for a Bitcoin claim whose signature the node did not verify. -/
def Claim.counted (claim : Claim) : Bool := !(claim.m_is_btc && !claim.m_electrum_result)

/-- What the claim has received before the block, as far as it is counted. -/
def Claim.receivedBefore (claim : Claim) (ancestors : IndexChain) : ℕ :=
  if claim.counted then claimedTotal ancestors claim.getSource else 0

/-- The number of payouts before the block, as far as they are counted. -/
def Claim.paidBefore (claim : Claim) (ancestors : IndexChain) : ℕ :=
  if claim.counted then claimedCount ancestors claim.getSource else 0

/-- What has been tested when `CheckClaimEligibility` accepts an amount, for a claim
that has received the given sum in the given number of payouts. -/
structure Affordable (env : Env) (value : ℤ) (claim : Claim) (received paid : ℕ) : Prop where
  count_le : paid + 1 ≤ claim.MAX_POSSIBLE_OUTPUTS
  held : env.options.genesis_key_held = true →
    paid + 1 ≤ claim.MAX_OUTPUTS ∧ paid + 1 ≤ claim.getMaxOutputs env
  range : moneyRange (received + value) = true
  reward_le : received + value ≤ MAX_CLAIM_REWARD
  eligible : claim.counted = true → received + value ≤ claim.getEligible env

theorem checkClaimLimits_eq_ok_iff {claim : Claim} {value : ℤ} {received paid count : ℕ} :
    checkClaimLimits env value claim received paid = .ok count ↔
      count = paid + 1 ∧ Affordable env value claim received paid := by
  have hreward : (50000 * COIN : ℤ) = MAX_CLAIM_REWARD := rfl
  unfold checkClaimLimits
  rw [hreward]
  split_ifs with hlimit hrange hunverified heligible
  · refine iff_of_false (by simp [txConsensus]) ?_
    rintro ⟨-, hafford⟩
    simp only [Bool.or_eq_true, Bool.and_eq_true, decide_eq_true_eq] at hlimit
    rcases hlimit with hlimit | ⟨hkey, hlimit | hlimit⟩
    · exact absurd hafford.count_le (by omega)
    · exact absurd (hafford.held hkey).1 (by omega)
    · exact absurd (hafford.held hkey).2 (by omega)
  · refine iff_of_false (by simp [txConsensus]) ?_
    rintro ⟨-, hafford⟩
    simp only [hafford.range, Bool.not_true, Bool.false_or, decide_eq_true_eq] at hrange
    exact absurd hafford.reward_le (by omega)
  all_goals
    simp only [Bool.or_eq_true, Bool.and_eq_true, decide_eq_true_eq, not_or, not_and, not_lt]
      at hlimit
    simp only [Bool.or_eq_true, Bool.not_eq_true', decide_eq_true_eq, not_or, not_lt,
      Bool.not_eq_false] at hrange
  · refine ⟨fun h => ⟨(Except.ok.inj h).symm, hlimit.1, hlimit.2, hrange.1, hrange.2, ?_⟩, ?_⟩
    · intro hcounted
      rw [counted, hunverified] at hcounted
      exact absurd hcounted (by decide)
    · rintro ⟨rfl, -⟩
      rfl
  · refine iff_of_false (by simp [txConsensus]) ?_
    rintro ⟨-, hafford⟩
    have hcounted : claim.counted = true := by
      rw [counted, Bool.eq_false_iff.mpr hunverified]
      rfl
    exact absurd (hafford.eligible hcounted) (by omega)
  · refine ⟨fun h => ⟨(Except.ok.inj h).symm, hlimit.1, hlimit.2, hrange.1, hrange.2,
      fun _ => not_lt.mp heligible⟩, ?_⟩
    rintro ⟨rfl, -⟩
    rfl

/-- `GetTotalReceived` in terms of the payouts along the chain. -/
theorem Claim.getTotalReceived_eq (claim : Claim) (chain : IndexChain) (nOutputs : ℕ) :
    claim.getTotalReceived env chain 0 nOutputs =
      if claim.m_is_btc = false ∧ claim.getEligible env ≤ 0 then (false, 0, nOutputs)
      else (decide ((claim.m_is_btc = false → (claimedTotal chain claim.getSource : ℤ) ≤
          claim.m_eligible) ∧
        nOutputs + claimedCount chain claim.getSource ≤ claim.MAX_POSSIBLE_OUTPUTS),
        (claimedTotal chain claim.getSource : ℤ),
        nOutputs + claimedCount chain claim.getSource) := by
  unfold getTotalReceived
  rw [receivedLoop_eq]
  cases claim.m_is_btc with
  | true =>
    simp only [Bool.not_true, Bool.false_and, Bool.false_eq_true, if_false, Bool.not_false,
      Bool.true_and, zero_add, reduceCtorEq, false_and, false_implies, true_and]
    refine Prod.ext ?_ rfl
    rw [Bool.eq_iff_iff]
    simp
  | false =>
    simp only [Bool.not_false, Bool.true_and, decide_eq_true_eq, true_and, zero_add, forall_const]
    split_ifs with heligible
    · rfl
    · refine Prod.ext ?_ rfl
      rw [Bool.eq_iff_iff]
      simp only [Bool.and_eq_true, Bool.not_eq_true', decide_eq_false_iff_not, decide_eq_true_eq,
        not_lt]

/-- The amounts are accepted exactly if the payout is affordable, on top of what the
earlier blocks have paid. -/
theorem checkClaimAmounts_eq_ok_iff {claim : Claim} {value : ℤ} {nOutputs count : ℕ} :
    checkClaimAmounts env ancestors value claim nOutputs = .ok count ↔
      count = nOutputs + claim.paidBefore ancestors + 1 ∧
        Affordable env value claim (claim.receivedBefore ancestors)
          (nOutputs + claim.paidBefore ancestors) ∧
        (claim.m_is_btc = false → 0 < claim.getEligible env ∧
          claim.receivedBefore ancestors ≤ claim.m_eligible) := by
  unfold checkClaimAmounts
  split_ifs with hunverified
  · have hcounted : claim.counted = false := by rw [counted, hunverified]; rfl
    have hbtc : claim.m_is_btc = true := (Bool.and_eq_true_iff.mp hunverified).1
    have hlimits := @checkClaimLimits_eq_ok_iff env claim value 0 nOutputs count
    simp only [paidBefore, receivedBefore, hcounted, hbtc, Bool.false_eq_true, if_false,
      Bool.true_eq_false, false_implies, and_true, add_zero]
    exact hlimits
  · have hcounted : claim.counted = true := by
      rw [counted, Bool.eq_false_iff.mpr hunverified]; rfl
    simp only [paidBefore, receivedBefore, hcounted, if_true, getTotalReceived_eq]
    by_cases hworthless : claim.m_is_btc = false ∧ claim.getEligible env ≤ 0
    · rw [if_pos hworthless]
      rw [if_pos Bool.not_false]
      refine iff_of_false (by simp [txConsensus]) ?_
      rintro ⟨-, -, hsnapshot⟩
      exact absurd (hsnapshot hworthless.1).1 (not_lt.mpr hworthless.2)
    · rw [if_neg hworthless]
      split_ifs with htotal
      · refine iff_of_false (by simp [txConsensus]) ?_
        rintro ⟨-, hafford, hsnapshot⟩
        have hcount := hafford.count_le
        simp only [Bool.not_eq_true', decide_eq_false_iff_not] at htotal
        exact htotal ⟨fun hbtc => (hsnapshot hbtc).2, by omega⟩
      · simp only [Bool.not_eq_true', decide_eq_false_iff_not, not_not] at htotal
        rw [checkClaimLimits_eq_ok_iff]
        refine and_congr_right fun _ => ?_
        refine ⟨fun hafford => ⟨hafford, fun hbtc => ⟨?_, htotal.1 hbtc⟩⟩, And.left⟩
        exact not_le.mp fun hle => hworthless ⟨hbtc, hle⟩

/-! ## The output loop -/

section Output

variable {txout : CTxOut} {st : OutputLoop} {key : CScript} {claim : Claim}
variable {claims : Std.ExtTreeMap CScript (CScript × ℤ) compare} {count nOutputs : ℕ} {value : ℤ}

theorem checkClaimOutput_of_none (h : st.g_claims.attributed txout.scriptPubKey = none) :
    checkClaimOutput env ancestors nTimeTx txout st =
      match checkOtherOutput env ancestors nTimeTx txout st.queued_claims with
      | .error failure => .fail st failure
      | .ok queued_claims => .pass { st with queued_claims } := by
  have hdef := checkClaimOutput.eq_def env ancestors nTimeTx txout st
  rw [h] at hdef
  exact hdef

theorem checkClaimOutput_of_some
    (h : st.g_claims.attributed txout.scriptPubKey = some (key, claim)) :
    checkClaimOutput env ancestors nTimeTx txout st =
      match (checkClaimEligibility env ancestors txout.value claim st.claims
          (st.outputs.getD claim.getSource 0)).2 with
      | .error failure => .fail { st with
          g_claims := st.g_claims.write key (checkClaimEligibility env ancestors txout.value claim
            st.claims (st.outputs.getD claim.getSource 0)).1 } failure
      | .ok nOutputs => .pass { st with
          g_claims := st.g_claims.write key (checkClaimEligibility env ancestors txout.value claim
            st.claims (st.outputs.getD claim.getSource 0)).1
          claims := st.claims.insert claim.getSource (key, txout.value)
          outputs := st.outputs.insert claim.getSource nOutputs } := by
  have hdef := checkClaimOutput.eq_def env ancestors nTimeTx txout st
  rw [h] at hdef
  exact hdef

theorem checkClaimEligibility_fst (ancestors : IndexChain) (value : ℤ)
    (claims : Std.ExtTreeMap CScript (CScript × ℤ) compare) (nOutputs : ℕ) :
    (checkClaimEligibility env ancestors value claim claims nOutputs).1 = claim ∨
      (checkClaimEligibility env ancestors value claim claims nOutputs).1 =
        (claim.isValid env).1 := by
  unfold checkClaimEligibility
  split_ifs
  · exact .inl rfl
  · exact .inr rfl
  · exact .inr rfl

theorem checkClaimEligibility_ok_iff :
    (checkClaimEligibility env ancestors value claim claims nOutputs).2 = .ok count ↔
      claims.contains claim.getSource = false ∧ (claim.isValid env).2 = .OK ∧
        checkClaimAmounts env ancestors value (claim.isValid env).1 nOutputs = .ok count := by
  unfold checkClaimEligibility
  split_ifs with hdup hinvalid
  · simp [txConsensus, hdup]
  · simp [txConsensus, hinvalid]
  · simp only [ne_eq, not_not] at hinvalid
    simp [hinvalid, hdup]

theorem checkClaimEligibility_fst_of_ok
    (h : (checkClaimEligibility env ancestors value claim claims nOutputs).2 = .ok count) :
    (checkClaimEligibility env ancestors value claim claims nOutputs).1 =
      (claim.isValid env).1 := by
  obtain ⟨hdup, hvalid, -⟩ := checkClaimEligibility_ok_iff.mp h
  unfold checkClaimEligibility
  rw [if_neg (by simp [hdup]), if_neg (not_not_intro hvalid)]

/-- The output loop writes into the pool at most the cached answer of one claim. -/
theorem checkClaimOutput_pool (txout : CTxOut) (st : OutputLoop) :
    (checkClaimOutput env ancestors nTimeTx txout st).state.g_claims = st.g_claims ∨
      ∃ (key : CScript) (claim value : Claim), st.g_claims[key]? = some claim ∧
        (value = claim ∨ value = (claim.isValid env).1) ∧
        (checkClaimOutput env ancestors nTimeTx txout st).state.g_claims =
          st.g_claims.write key value := by
  cases hattributed : st.g_claims.attributed txout.scriptPubKey with
  | none =>
    left
    rw [checkClaimOutput_of_none hattributed]
    cases checkOtherOutput env ancestors nTimeTx txout st.queued_claims with
    | error failure => rfl
    | ok queued_claims => rfl
  | some entry =>
    obtain ⟨key, claim⟩ := entry
    right
    refine ⟨key, claim, _, (ClaimPool.attributed_some hattributed).1,
      checkClaimEligibility_fst ancestors txout.value st.claims
        (st.outputs.getD claim.getSource 0), ?_⟩
    rw [checkClaimOutput_of_some hattributed]
    split
    · rfl
    · rfl

/-- What an output has passed, and what the loop has recorded, when the loop goes on. -/
theorem checkClaimOutput_of_ok
    (h : (checkClaimOutput env ancestors nTimeTx txout st).result = .ok ()) :
    (st.g_claims.attributed txout.scriptPubKey = none ∧
      ∃ queued_claims, checkOtherOutput env ancestors nTimeTx txout st.queued_claims =
          .ok queued_claims ∧
        (checkClaimOutput env ancestors nTimeTx txout st).state = { st with queued_claims }) ∨
    ∃ key claim count, st.g_claims.attributed txout.scriptPubKey = some (key, claim) ∧
      st.claims.contains claim.getSource = false ∧ (claim.isValid env).2 = .OK ∧
      checkClaimAmounts env ancestors txout.value (claim.isValid env).1
        (st.outputs.getD claim.getSource 0) = .ok count ∧
      (checkClaimOutput env ancestors nTimeTx txout st).state = { st with
        g_claims := st.g_claims.write key (claim.isValid env).1
        claims := st.claims.insert claim.getSource (key, txout.value)
        outputs := st.outputs.insert claim.getSource count } := by
  cases hattributed : st.g_claims.attributed txout.scriptPubKey with
  | none =>
    left
    rw [checkClaimOutput_of_none hattributed] at h ⊢
    cases hother : checkOtherOutput env ancestors nTimeTx txout st.queued_claims with
    | error failure => rw [hother] at h; exact absurd h (by simp)
    | ok queued_claims => exact ⟨rfl, queued_claims, rfl, rfl⟩
  | some entry =>
    obtain ⟨key, claim⟩ := entry
    right
    rw [checkClaimOutput_of_some hattributed] at h ⊢
    cases hchecked : (checkClaimEligibility env ancestors txout.value claim st.claims
        (st.outputs.getD claim.getSource 0)).2 with
    | error failure => rw [hchecked] at h; exact absurd h (by simp)
    | ok count =>
      obtain ⟨hdup, hvalid, hamounts⟩ := checkClaimEligibility_ok_iff.mp hchecked
      refine ⟨key, claim, count, rfl, hdup, hvalid, hamounts, ?_⟩
      rw [checkClaimEligibility_fst_of_ok hchecked]
      rfl

end Output

/-! ## The effect on the pool -/

section Pool

variable {γ : Type*} {part : Claim → γ} {st : ClaimState} {tx : CTransaction} {view : CCoinsView}
  {vClaim : List CClaim}

theorem image_checkClaimOutput (hpart : ∀ claim, part (claim.isValid env).1 = part claim)
    (txout : CTxOut) (loop : OutputLoop) :
    (checkClaimOutput env ancestors nTimeTx txout loop).state.g_claims.image part =
      loop.g_claims.image part := by
  rcases checkClaimOutput_pool txout loop with hsame | ⟨key, claim, value, hentry, hvalue, hwrite⟩
  · rw [hsame]
  · rw [hwrite, ClaimPool.image_write hentry]
    rcases hvalue with rfl | rfl
    · rfl
    · exact hpart claim

/-- The output loop keeps everything about the claims except the cached answers. -/
theorem image_checkClaimOutputs (hpart : ∀ claim, part (claim.isValid env).1 = part claim)
    (vout : List CTxOut) (st : ClaimState) :
    (checkClaimOutputs env ancestors nTimeTx vout st).state.g_claims.image part =
      st.g_claims.image part := by
  refine forEach_invariant
    (P := fun loop : OutputLoop => loop.g_claims.image part = st.g_claims.image part) ?_ rfl
  intro txout _ loop hloop
  rw [image_checkClaimOutput hpart, hloop]

theorem Claim.m_init_isValid (claim : Claim) : (claim.isValid env).1.m_init = claim.m_init := by
  rw [isValid_fst_eq claim]

theorem Claim.getSource_isValid (claim : Claim) :
    (claim.isValid env).1.getSource = claim.getSource := by
  rw [isValid_fst_eq claim]
  rfl

theorem Claim.getTarget_isValid (claim : Claim) :
    (claim.isValid env).1.getTarget = claim.getTarget := by
  rw [isValid_fst_eq claim]
  rfl

theorem ClaimPool.Sound.checkClaimOutput {txout : CTxOut} {loop : OutputLoop}
    (hpool : loop.g_claims.Sound env) :
    (checkClaimOutput env ancestors nTimeTx txout loop).state.g_claims.Sound env := by
  rcases checkClaimOutput_pool txout loop with hsame | ⟨key, claim, value, hentry, hvalue, hwrite⟩
  · rw [hsame]
    exact hpool
  · rw [hwrite]
    rcases hvalue with rfl | rfl
    · exact hpool.write hentry id rfl rfl
    · exact hpool.write hentry Claim.Built.isValid (m_init_isValid claim)
        (getSource_isValid claim)

theorem ClaimPool.Sound.checkClaimOutputs {vout : List CTxOut} (hpool : st.g_claims.Sound env) :
    (checkClaimOutputs env ancestors nTimeTx vout st).state.g_claims.Sound env := by
  refine forEach_invariant (P := fun loop : OutputLoop => loop.g_claims.Sound env) ?_ hpool
  intro txout _ loop hloop
  exact hloop.checkClaimOutput

theorem checkClaims_nil : checkClaims env ancestors view tx nTimeTx [] st = .pass st := rfl

/-- `CheckClaims` on a block with claims: the guards, the insert loop, the output loop. -/
theorem checkClaims_of_ne_nil (hne : vClaim ≠ []) :
    checkClaims env ancestors view tx nTimeTx vClaim st =
      match checkClaimGuards env view tx nTimeTx vClaim with
      | .error failure => .fail st failure
      | .ok () =>
        match (insertBlockClaims env nTimeTx vClaim st.g_claims).result with
        | .error failure => .fail { st with
            g_claims := (insertBlockClaims env nTimeTx vClaim st.g_claims).state } failure
        | .ok () => checkClaimOutputs env ancestors nTimeTx tx.vout { st with
            g_claims := st.g_claims.mergeAll env vClaim } := by
  unfold checkClaims
  rw [if_neg (by simpa using hne)]
  cases checkClaimGuards env view tx nTimeTx vClaim with
  | error failure => rfl
  | ok value =>
    dsimp only
    cases hmerged : (insertBlockClaims env nTimeTx vClaim st.g_claims).result with
    | error failure => rfl
    | ok value =>
      rw [insertBlockClaims_state_of_ok hmerged]

theorem checkClaims_ok_iff (hne : vClaim ≠ []) :
    (checkClaims env ancestors view tx nTimeTx vClaim st).result = .ok () ↔
      checkClaimGuards env view tx nTimeTx vClaim = .ok () ∧
        (insertBlockClaims env nTimeTx vClaim st.g_claims).result = .ok () ∧
        (checkClaimOutputs env ancestors nTimeTx tx.vout { st with
          g_claims := st.g_claims.mergeAll env vClaim }).result = .ok () := by
  rw [checkClaims_of_ne_nil hne]
  cases checkClaimGuards env view tx nTimeTx vClaim with
  | error failure => simp
  | ok value =>
    cases (insertBlockClaims env nTimeTx vClaim st.g_claims).result with
    | error failure => simp
    | ok value => simp

theorem state_checkClaims_of_ok (hne : vClaim ≠ [])
    (hok : (checkClaims env ancestors view tx nTimeTx vClaim st).result = .ok ()) :
    (checkClaims env ancestors view tx nTimeTx vClaim st).state =
      (checkClaimOutputs env ancestors nTimeTx tx.vout { st with
        g_claims := st.g_claims.mergeAll env vClaim }).state := by
  obtain ⟨hguards, hmerged, -⟩ := (checkClaims_ok_iff hne).mp hok
  rw [checkClaims_of_ne_nil hne, hguards]
  rw [hmerged]

/-- What `CheckClaims` can do to the pool: some first claims of the block are merged
into it, and the cached answers may change. -/
theorem checkClaims_pool (hpart : ∀ claim, part (claim.isValid env).1 = part claim)
    (vClaim : List CClaim) (st : ClaimState) : ∃ merged, merged <+: vClaim ∧
      (checkClaims env ancestors view tx nTimeTx vClaim st).state.g_claims.image part =
        (st.g_claims.mergeAll env merged).image part := by
  by_cases hne : vClaim = []
  · subst hne
    exact ⟨[], List.nil_prefix, rfl⟩
  rw [checkClaims_of_ne_nil hne]
  cases checkClaimGuards env view tx nTimeTx vClaim with
  | error failure => exact ⟨[], List.nil_prefix, rfl⟩
  | ok value =>
    cases (insertBlockClaims env nTimeTx vClaim st.g_claims).result with
    | error failure =>
      obtain ⟨merged, hmerged, hstate⟩ := @insertBlockClaims_state env nTimeTx vClaim st.g_claims
      exact ⟨merged, hmerged, congrArg (ClaimPool.image part) hstate⟩
    | ok value => exact ⟨vClaim, List.prefix_rfl, image_checkClaimOutputs hpart _ _⟩

theorem ClaimPool.Sound.checkClaims (hpool : st.g_claims.Sound env) :
    (checkClaims env ancestors view tx nTimeTx vClaim st).state.g_claims.Sound env := by
  by_cases hne : vClaim = []
  · subst hne
    exact hpool
  rw [checkClaims_of_ne_nil hne]
  cases checkClaimGuards env view tx nTimeTx vClaim with
  | error failure => exact hpool
  | ok value =>
    cases (insertBlockClaims env nTimeTx vClaim st.g_claims).result with
    | error failure =>
      obtain ⟨merged, -, hstate⟩ := @insertBlockClaims_state env nTimeTx vClaim st.g_claims
      rw [hstate]
      exact hpool.mergeAll merged
    | ok value => exact (hpool.mergeAll vClaim).checkClaimOutputs

end Pool

end Patchcoin
