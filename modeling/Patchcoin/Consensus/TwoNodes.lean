import Patchcoin.Consensus.Payouts

/-!
# Two nodes that check the same block

`checkClaims` reads the options of the node and its pool.  Here its run on one
node is compared with its run on another one, on the same network, with other
options and another pool.  The comparison goes one way: if the first node
accepts, so does the second, and both have collected the same payouts
(`checkClaims_follows`).  Applied in both directions it gives equal verdicts.

Two things have to be assumed.  On both nodes an output is attributed to the
same claim, as far as the part of it goes that is compared (`ClaimPool.partFor`), and the
second node accepts a payout of such a claim whenever the first one does (`Follows`).
-/

namespace Patchcoin

open ClaimPool Claim Std.ExtTreeMap

variable {txout : CTxOut} {claim : Claim} {count : ℕ} {β : Type} {part : Claim → β}

/-- Two nodes of one network: only their options differ. -/
def SameNetwork (env env' : Env) : Prop := env' = { env with options := env'.options }

theorem SameNetwork.refl (env : Env) : SameNetwork env env := rfl

theorem SameNetwork.symm {env env' : Env} (h : SameNetwork env env') : SameNetwork env' env := by
  unfold SameNetwork at h ⊢
  rw [h]

/-- What a claim of the pool is known by: its message, and the sum it has received. -/
def Claim.message (claim : Claim) : CClaim × ℤ := (claim.m_claim, claim.nTotalReceived)

theorem Claim.message_isValid {env : Env} (claim : Claim) :
    (claim.isValid env).1.message = claim.message := by
  rw [isValid_fst_eq claim]
  rfl

theorem Claim.getTarget_of_message_eq {claim' : Claim} (h : claim.message = claim'.message) :
    claim.getTarget = claim'.getTarget :=
  congrArg (fun message => message.1.target) h

/-- The part of the claim that an output script is attributed to. -/
def ClaimPool.partFor (part : Claim → β) (pool : ClaimPool) (script : CScript) : Option β :=
  (pool.attributed script).map fun entry => part entry.2

/-- The claim that an output script is attributed to, as far as it is known by its
message. -/
def ClaimPool.claimFor (pool : ClaimPool) (script : CScript) : Option (CClaim × ℤ) :=
  pool.partFor message script

theorem ClaimPool.partFor_congr {pool pool' : ClaimPool}
    (htarget : ∀ {claim claim'}, part claim = part claim' → claim.getTarget = claim'.getTarget)
    (h : pool.image part = pool'.image part) (script : CScript) :
    pool.partFor part script = pool'.partFor part script := by
  have hattributed := attributed_congr h (fun _ _ => htarget) script
  have hpart := congrArg (Option.map Prod.snd) hattributed
  rw [Option.map_map, Option.map_map] at hpart
  exact hpart

/-- What two nodes may compare of a claim: it tells the source and the target, and checking
the claim does not change it. -/
structure Compares (env env' : Env) (part : Claim → β) : Prop where
  source : ∀ {claim claim'}, part claim = part claim' →
    claim.m_claim.source = claim'.m_claim.source
  target : ∀ {claim claim'}, part claim = part claim' → claim.getTarget = claim'.getTarget
  isValid : ∀ claim, part (claim.isValid env).1 = part claim
  isValid' : ∀ claim, part (claim.isValid env').1 = part claim

theorem compares_message (env env' : Env) : Compares env env' message where
  source h := congrArg (fun message => message.1.source) h
  target := getTarget_of_message_eq
  isValid := message_isValid
  isValid' := message_isValid

/-- If a node accepts a payout of a claim as the first one of the block, so does the
other node, for claims with the given part. -/
def Follows (env env' : Env) (ancestors : IndexChain) (part : Claim → β) (known : β)
    (value : ℤ) : Prop :=
  ∀ claim claim' : Claim, claim.Built env → claim'.Built env' → part claim = known →
    part claim' = known → (claim.isValid env).2 = .OK →
    ∀ count, checkClaimAmounts env ancestors value (claim.isValid env).1 0 = .ok count →
      (claim'.isValid env').2 = .OK ∧
        ∃ count', checkClaimAmounts env' ancestors value (claim'.isValid env').1 0 = .ok count'

variable {env env' : Env} {ancestors : IndexChain} {nTimeTx : UInt32} {vClaim : List CClaim}
  {pool pool' : ClaimPool}

/-! ## The output loop -/

/-- The output loops of the two nodes, from the given pools: they have collected the same
payouts, and count the outputs of a source only once there is a payout. -/
structure LoopsMatch (env env' : Env) (part : Claim → β) (pool pool' : ClaimPool)
    (loop loop' : OutputLoop) : Prop where
  sound : loop.g_claims.Sound env
  sound' : loop'.g_claims.Sound env'
  image : loop.g_claims.image part = pool.image part
  image' : loop'.g_claims.image part = pool'.image part
  claims : loop'.claims = loop.claims
  queued_claims : loop'.queued_claims = loop.queued_claims
  outputs : ∀ source, loop.claims.contains source = false → loop.outputs.getD source 0 = 0
  outputs' : ∀ source, loop'.claims.contains source = false → loop'.outputs.getD source 0 = 0

theorem checkOtherOutput_congr (hnet : SameNetwork env env') (txout : CTxOut)
    (queue : List UInt16) : checkOtherOutput env' ancestors nTimeTx txout queue =
      checkOtherOutput env ancestors nTimeTx txout queue := by
  rw [hnet]
  rfl

/-- A payout that is collected is counted with its source. -/
theorem getD_insert_of_not_contains {claims : Std.ExtTreeMap CScript (CScript × ℤ) compare}
    {outputs : Std.ExtTreeMap CScript ℕ compare} {source : CScript} {payout : CScript × ℤ}
    (h : ∀ other, claims.contains other = false → outputs.getD other 0 = 0) (other : CScript)
    (hother : (claims.insert source payout).contains other = false) :
    (outputs.insert source count).getD other 0 = 0 := by
  rw [contains_insert, Bool.or_eq_false_iff] at hother
  rw [getD_insert, if_neg (by simpa using hother.1)]
  exact h other hother.2

/-- A payout that has passed every test is collected. -/
theorem checkClaimOutput_pass {st : OutputLoop} {key : CScript}
    (hattributed : st.g_claims.attributed txout.scriptPubKey = some (key, claim))
    (hfresh : st.claims.contains claim.getSource = false) (hvalid : (claim.isValid env).2 = .OK)
    (hamounts : checkClaimAmounts env ancestors txout.value (claim.isValid env).1
      (st.outputs.getD claim.getSource 0) = .ok count) :
    checkClaimOutput env ancestors nTimeTx txout st = .pass { st with
      g_claims := st.g_claims.write key (claim.isValid env).1
      claims := st.claims.insert claim.getSource (key, txout.value)
      outputs := st.outputs.insert claim.getSource count } := by
  have hchecked : (checkClaimEligibility env ancestors txout.value claim st.claims
      (st.outputs.getD claim.getSource 0)).2 = .ok count :=
    checkClaimEligibility_ok_iff.mpr ⟨hfresh, hvalid, hamounts⟩
  rw [checkClaimOutput_of_some hattributed, hchecked, checkClaimEligibility_fst_of_ok hchecked]

theorem checkClaimOutput_follows (hnet : SameNetwork env env') (hpart : Compares env env' part)
    {loop loop' : OutputLoop} (h : LoopsMatch env env' part pool pool' loop loop')
    (hfor : pool.partFor part txout.scriptPubKey = pool'.partFor part txout.scriptPubKey)
    (hfollows : ∀ known, pool.partFor part txout.scriptPubKey = some known →
      Follows env env' ancestors part known txout.value)
    (hok : (checkClaimOutput env ancestors nTimeTx txout loop).result = .ok ()) :
    (checkClaimOutput env' ancestors nTimeTx txout loop').result = .ok () ∧
      LoopsMatch env env' part pool pool' (checkClaimOutput env ancestors nTimeTx txout loop).state
        (checkClaimOutput env' ancestors nTimeTx txout loop').state := by
  have hpools (hclaims) (hqueue) (houtputs) (houtputs') :
      LoopsMatch env env' part pool pool' (checkClaimOutput env ancestors nTimeTx txout loop).state
        (checkClaimOutput env' ancestors nTimeTx txout loop').state :=
    ⟨h.sound.checkClaimOutput, h.sound'.checkClaimOutput,
      (image_checkClaimOutput hpart.isValid txout loop).trans h.image,
      (image_checkClaimOutput hpart.isValid' txout loop').trans h.image', hclaims, hqueue,
      houtputs, houtputs'⟩
  rw [← partFor_congr hpart.target h.image, ← partFor_congr hpart.target h.image'] at hfor
  rw [← partFor_congr hpart.target h.image] at hfollows
  unfold partFor at hfor hfollows
  rcases checkClaimOutput_of_ok hok with ⟨hnone, queue, hother, hstate⟩ |
    ⟨key, claim, count, hattributed, hfresh, hvalid, hamounts, hstate⟩
  · -- no claim on either node
    have hnone' : loop'.g_claims.attributed txout.scriptPubKey = none := by
      rw [hnone, Option.map_none] at hfor
      exact Option.map_eq_none_iff.mp hfor.symm
    have hpass : checkClaimOutput env' ancestors nTimeTx txout loop' =
        .pass { loop' with queued_claims := queue } := by
      rw [checkClaimOutput_of_none hnone', checkOtherOutput_congr hnet, h.queued_claims, hother]
    refine ⟨by rw [hpass]; rfl, hpools ?_ ?_ ?_ ?_⟩
    · rw [hstate, hpass]
      exact h.claims
    · rw [hstate, hpass]
      rfl
    · rw [hstate]
      exact h.outputs
    · rw [hpass]
      exact h.outputs'
  · -- the same claim on both nodes
    rw [hattributed, Option.map_some] at hfor hfollows
    obtain ⟨⟨key', claim'⟩, hattributed', hsame⟩ := Option.map_eq_some_iff.mp hfor.symm
    obtain ⟨hentry, -⟩ := attributed_some hattributed
    obtain ⟨hentry', -⟩ := attributed_some hattributed'
    rw [h.outputs _ hfresh] at hamounts
    obtain ⟨hvalid', count', hamounts'⟩ := hfollows _ rfl claim claim' (h.sound key claim hentry).1
      (h.sound' key' claim' hentry').1 rfl hsame hvalid count hamounts
    have hclaim := hpart.source hsame
    obtain ⟨hsource, hkey⟩ := h.sound.source_of_valid hentry hvalid
    obtain ⟨hsource', hkey'⟩ := h.sound'.source_of_valid hentry' hvalid'
    rw [hclaim] at hsource' hkey'
    have hfresh' : loop'.claims.contains claim'.getSource = false := by
      rw [h.claims, hsource', ← hsource]
      exact hfresh
    rw [← h.outputs' _ hfresh'] at hamounts'
    have hpass : checkClaimOutput env' ancestors nTimeTx txout loop' = _ :=
      checkClaimOutput_pass hattributed' hfresh' hvalid' hamounts'
    refine ⟨by rw [hpass]; rfl, hpools ?_ ?_ ?_ ?_⟩
    · rw [hstate, hpass]
      dsimp only [Outcome.state_pass]
      rw [h.claims, hsource, hsource', hkey, hkey']
    · rw [hstate, hpass]
      exact h.queued_claims
    · rw [hstate]
      exact getD_insert_of_not_contains h.outputs
    · rw [hpass]
      exact getD_insert_of_not_contains h.outputs'

/-! ## The whole check -/

/-- The claims on the two nodes while a block is connected, from the given pools with the
claims of the block: what the block has collected so far is the same. -/
structure ClaimsMatch (env env' : Env) (part : Claim → β) (vClaim : List CClaim)
    (pool pool' : ClaimPool) (st st' : ClaimState) : Prop where
  sound : st.g_claims.Sound env
  sound' : st'.g_claims.Sound env'
  image : (st.g_claims.mergeAll env vClaim).image part = pool.image part
  image' : (st'.g_claims.mergeAll env' vClaim).image part = pool'.image part
  claims : st'.claims = st.claims
  queued_claims : st'.queued_claims = st.queued_claims

theorem checkClaimGuards_congr (hnet : SameNetwork env env') (view : CCoinsView)
    (tx : CTransaction) :
    checkClaimGuards env' view tx nTimeTx vClaim = checkClaimGuards env view tx nTimeTx vClaim := by
  have hinputs (vin : List CTxIn) : checkGenesisInputs env' view tx nTimeTx vin =
      checkGenesisInputs env view tx nTimeTx vin := by
    induction vin with
    | nil => rfl
    | cons input rest ih =>
      unfold checkGenesisInputs
      rw [ih, hnet]
      rfl
  unfold checkClaimGuards
  rw [hinputs, hnet]
  rfl

/-- The pool of a run that has merged the claims of the block has the parts of the
merged pool, also if they are merged again. -/
theorem ClaimPool.image_mergeAll_of_image_eq {merged : ClaimPool}
    (htarget : ∀ {claim claim'}, part claim = part claim' → claim.getTarget = claim'.getTarget)
    (h : merged.image part = (pool.mergeAll env vClaim).image part) :
    (merged.mergeAll env vClaim).image part = (pool.mergeAll env vClaim).image part := by
  have htargets : merged.image getTarget = (pool.mergeAll env vClaim).image getTarget :=
    image_eq_of_image_eq h fun _ _ => htarget
  rw [mergeAll_of_image_eq htargets, h]

/-- If the first node accepts the claims and the payouts of a transaction, so does the
second, and they have collected the same payouts. -/
theorem checkClaims_follows (hnet : SameNetwork env env') (hpart : Compares env env' part)
    {view : CCoinsView} {tx : CTransaction} {st st' : ClaimState}
    (h : ClaimsMatch env env' part vClaim pool pool' st st')
    (hverdicts : ∀ claim ∈ vClaim, blockClaimVerdict env nTimeTx claim = .ok () →
      blockClaimVerdict env' nTimeTx claim = .ok ())
    (hfor : vClaim ≠ [] → ∀ txout ∈ tx.vout,
      pool.partFor part txout.scriptPubKey = pool'.partFor part txout.scriptPubKey)
    (hfollows : ∀ txout ∈ tx.vout, ∀ known, pool.partFor part txout.scriptPubKey = some known →
      Follows env env' ancestors part known txout.value)
    (hok : (checkClaims env ancestors view tx nTimeTx vClaim st).result = .ok ()) :
    (checkClaims env' ancestors view tx nTimeTx vClaim st').result = .ok () ∧
      ClaimsMatch env env' part vClaim pool pool'
        (checkClaims env ancestors view tx nTimeTx vClaim st).state
        (checkClaims env' ancestors view tx nTimeTx vClaim st').state := by
  by_cases hne : vClaim = []
  · subst hne
    exact ⟨rfl, h⟩
  obtain ⟨hguards, hmerged, houtputs⟩ := (checkClaims_ok_iff hne).mp hok
  have hmerged' : (insertBlockClaims env' nTimeTx vClaim st'.g_claims).result = .ok () := by
    rw [insertBlockClaims_ok_iff] at hmerged ⊢
    exact fun claim hclaim => hverdicts claim hclaim (hmerged claim hclaim)
  -- the output loops start from the merged pools
  have hstart : LoopsMatch env env' part pool pool'
      { st with g_claims := st.g_claims.mergeAll env vClaim, outputs := ∅ }
      { st' with g_claims := st'.g_claims.mergeAll env' vClaim, outputs := ∅ } :=
    ⟨h.sound.mergeAll vClaim, h.sound'.mergeAll vClaim, h.image, h.image', h.claims,
      h.queued_claims, fun _ _ => getD_empty, fun _ _ => getD_empty⟩
  obtain ⟨houtputs', hend⟩ := Outcome.forEach_simulation (fun txout htxout loop _ hloop
    (hpass : (checkClaimOutput env ancestors nTimeTx txout loop).result = .ok ()) =>
    checkClaimOutput_follows hnet hpart hloop (hfor hne txout htxout) (hfollows txout htxout)
      hpass) hstart houtputs
  have hok' : (checkClaims env' ancestors view tx nTimeTx vClaim st').result = .ok () :=
    (checkClaims_ok_iff hne).mpr ⟨(checkClaimGuards_congr hnet view tx).trans hguards, hmerged',
      houtputs'⟩
  refine ⟨hok', ?_⟩
  rw [state_checkClaims_of_ok hne hok, state_checkClaims_of_ok hne hok']
  exact ⟨hend.sound, hend.sound',
    (image_mergeAll_of_image_eq hpart.target (hend.image.trans h.image.symm)).trans h.image,
    (image_mergeAll_of_image_eq hpart.target (hend.image'.trans h.image'.symm)).trans h.image',
    hend.claims, hend.queued_claims⟩

end Patchcoin
