import Patchcoin.Claim.Reload

/-!
# Claims that arrive in messages

A claim that comes in a `CLAIM` message, through `queueclaim` or in a claim set is
put into the map and written to the database at once.  A claim set also marks claims
of the map as seen, in the map first and in the database afterwards.

Two things can come between the map and what a restart makes of the database.  A write
to the database can fail, and a claim can be new to the map although its source was
paid before: its total in the map is zero until the next payout
(`learns_preserved_iff`, `applyClaimSet_preserved_iff`).
-/

namespace Patchcoin

open Std.ExtTreeMap Claim ClaimStore

variable {env : Env} {texts : Texts} {tip : IndexChain} {store store' : ClaimStore}
  {claim : Claim} {source : CScript} {written : Bool}

/-! ## Totals in the map -/

/-- The totals stay, and a claim that is new has received nothing. -/
structure ClaimPool.Learned (pool pool' : ClaimPool) : Prop where
  kept : ∀ (source : CScript) (claim : Claim), pool[source]? = some claim →
    ∃ claim' : Claim, pool'[source]? = some claim' ∧
      claim'.nTotalReceived = claim.nTotalReceived
  fresh : ∀ (source : CScript) (claim' : Claim), pool[source]? = none →
    pool'[source]? = some claim' → claim'.nTotalReceived = 0

namespace ClaimPool

variable {pool pool' pool'' : ClaimPool}

theorem Learned.refl (pool : ClaimPool) : pool.Learned pool := by
  refine ⟨fun _ claim hentry => ⟨claim, hentry, rfl⟩, fun source claim hnone hentry => ?_⟩
  rw [hnone] at hentry
  cases hentry

theorem Learned.trans (h : pool.Learned pool') (h' : pool'.Learned pool'') :
    pool.Learned pool'' := by
  constructor
  · intro source claim hentry
    obtain ⟨claim', hentry', hsame⟩ := h.kept source claim hentry
    obtain ⟨claim'', hentry'', hsame'⟩ := h'.kept source claim' hentry'
    exact ⟨claim'', hentry'', hsame'.trans hsame⟩
  · intro source claim'' hnone hentry''
    cases hentry' : pool'[source]? with
    | none => exact h'.fresh source claim'' hentry' hentry''
    | some claim' =>
      obtain ⟨claim, hentry, hsame⟩ := h'.kept source claim' hentry'
      obtain rfl : claim'' = claim := Option.some.inj (hentry''.symm.trans hentry)
      rw [hsame]
      exact h.fresh source claim' hnone hentry'

theorem Learned.insert (hnew : pool[source]? = none → claim.nTotalReceived = 0)
    (hknown : ∀ entry, pool[source]? = some entry →
      claim.nTotalReceived = entry.nTotalReceived) : pool.Learned (pool.insert source claim) := by
  constructor
  · intro key other hother
    rw [getElem?_insert]
    split_ifs with heq
    · obtain rfl : source = key := Std.LawfulEqCmp.eq_of_compare heq
      exact ⟨claim, rfl, hknown other hother⟩
    · exact ⟨other, hother, rfl⟩
  · intro key other hkey hother
    rw [getElem?_insert] at hother
    split_ifs at hother with heq
    · obtain rfl : source = key := Std.LawfulEqCmp.eq_of_compare heq
      rw [← Option.some.inj hother, hnew hkey]
    · rw [hkey] at hother
      cases hother

end ClaimPool

variable {entry : Claim} {record : ClaimRecord}

/-- The sources that come into the map have not been paid. -/
def ClaimPool.NewUnpaid (env : Env) (tip : IndexChain) (pool pool' : ClaimPool) : Prop :=
  ∀ (source : CScript) (claim : Claim), pool[source]? = none → pool'[source]? = some claim →
    countedTotal env tip source = 0

theorem preserved_iff_of_learned (hlearned : store.g_claims.Learned store'.g_claims)
    (h : store.Preserved env tip) : store'.Preserved env tip ↔
      store'.Copied ∧ store.g_claims.NewUnpaid env tip store'.g_claims := by
  constructor
  · rintro ⟨hcopied, hcounted, -⟩
    refine ⟨hcopied, fun source claim hnone hentry => ?_⟩
    have htotal := hcounted source claim hentry
    rw [hlearned.fresh source claim hnone hentry] at htotal
    exact_mod_cast htotal.symm
  · rintro ⟨hcopied, hunpaid⟩
    have hentries (source : CScript) (claim : Claim)
        (hentry : store'.g_claims[source]? = some claim) :
        claim.nTotalReceived = countedTotal env tip source ∧
          WithinLimits env source claim.nTotalReceived := by
      cases hbefore : store.g_claims[source]? with
      | none =>
        rw [hlearned.fresh source claim hbefore hentry, hunpaid source claim hbefore hentry]
        exact ⟨rfl, withinLimits_zero source⟩
      | some old =>
        obtain ⟨claim', hentry', hsame⟩ := hlearned.kept source old hbefore
        obtain rfl : claim = claim' := Option.some.inj (hentry.symm.trans hentry')
        rw [hsame]
        exact ⟨h.counted source old hbefore, h.limited source old hbefore⟩
    exact ⟨hcopied, fun source claim hentry => (hentries source claim hentry).1,
      fun source claim hentry => (hentries source claim hentry).2⟩

/-! ## One new claim -/

/-- A call puts a claim that has received nothing into the map and writes it to the database,
if the write succeeds, or it leaves both as they are. -/
inductive ClaimStore.Learns (env : Env) (written : Bool) (store store' : ClaimStore) : Prop
  | nothing (hclaims : store'.g_claims = store.g_claims)
      (hindex : store'.g_claimindex = store.g_claimindex)
  | claim (claim : Claim) (hbuilt : claim.Built env) (htotal : claim.nTotalReceived = 0)
      (hvalid : (claim.isValid env).2 = .OK) (hunique : store.g_claims.isUnique claim = true)
      (hclaims : store'.g_claims =
        store.g_claims.insert claim.getSource (claim.isValid env).1)
      (hindex : store'.g_claimindex =
        if written then store.g_claimindex.insert claim.getSource (claim.isValid env).1.toRecord
        else store.g_claimindex)

theorem ClaimStore.Coherent.index_eq_none (h : store.Coherent env)
    (hnone : store.g_claims[source]? = none) : store.g_claimindex[source]? = none := by
  cases hrecord : store.g_claimindex[source]? with
  | none => rfl
  | some record =>
    obtain ⟨claim, hentry, -⟩ := h.copies source record hrecord
    rw [hnone] at hentry
    cases hentry

section

variable (h : store.Learns env written store')
include h

theorem ClaimStore.Learns.learned : store.g_claims.Learned store'.g_claims := by
  cases h with
  | nothing hclaims hindex =>
    rw [hclaims]
    exact ClaimPool.Learned.refl _
  | claim claim hbuilt htotal hvalid hunique hclaims hindex =>
    rw [hclaims]
    refine .insert (fun _ => ?_) fun entry hentry => ?_
    · rw [isValid_fst_eq claim]
      exact htotal
    · rw [ClaimPool.getElem?_of_isUnique hunique] at hentry
      cases hentry

theorem ClaimStore.Learns.coherent (hcoherent : store.Coherent env) : store'.Coherent env := by
  cases h with
  | nothing hclaims hindex =>
    refine ⟨?_, ?_, ?_, ?_⟩
    · rw [hclaims]; exact hcoherent.sound
    · rw [hclaims]; exact hcoherent.tidy
    · rw [hclaims]; exact hcoherent.admitted
    · rw [hclaims, hindex]; exact hcoherent.copies
  | claim claim hbuilt htotal hvalid hunique hclaims hindex =>
    have hsource := @getSource_isValid env claim
    have hunique' : store.g_claims.isUnique (claim.isValid env).1 = true := by
      rw [ClaimPool.isUnique_isValid, hunique]
    have hinit : (claim.isValid env).1.m_init = true := by
      rw [m_init_isValid]
      exact ClaimPool.m_init_of_isValid hvalid
    refine ⟨?_, ?_, ?_, ?_⟩
    · rw [hclaims, ← hsource]
      exact hcoherent.sound.insert hbuilt.isValid
    · rw [hclaims, ← hsource]
      exact hcoherent.tidy.insert hinit hunique'
    · intro key entry hentry
      rw [hclaims, getElem?_insert] at hentry
      split_ifs at hentry with heq
      · rw [← Option.some.inj hentry]
        refine ⟨?_, (ClaimPool.isUnique_iff.mp hunique').1⟩
        rw [m_claim_isValid]
        exact hbuilt.isValid_ofCClaim hvalid
      · exact hcoherent.admitted key entry hentry
    · intro key record hrecord
      rw [hclaims, getElem?_insert]
      split_ifs with heq
      · refine ⟨_, rfl, ?_⟩
        rw [hindex] at hrecord
        obtain rfl : claim.getSource = key := Std.LawfulEqCmp.eq_of_compare heq
        split_ifs at hrecord
        · rw [getElem?_insert_self] at hrecord
          rw [← Option.some.inj hrecord]
          rfl
        · rw [hcoherent.index_eq_none (ClaimPool.getElem?_of_isUnique hunique)] at hrecord
          cases hrecord
      · refine hcoherent.copies key record ?_
        rw [hindex] at hrecord
        split_ifs at hrecord
        · rwa [getElem?_insert, if_neg heq] at hrecord
        · exact hrecord

/-- The copies are up to date after the call if the write, should there be one, succeeds. -/
theorem ClaimStore.Learns.copied_iff (hcoherent : store.Coherent env) (hcopied : store.Copied) :
    store'.Copied ↔ ∀ (source : CScript) (claim : Claim), store.g_claims[source]? = none →
      store'.g_claims[source]? = some claim → written = true := by
  cases h with
  | nothing hclaims hindex =>
    refine iff_of_true ?_ ?_
    · unfold ClaimStore.Copied
      rw [hclaims, hindex]
      exact hcopied
    · intro source claim hnone hentry
      rw [hclaims, hnone] at hentry
      cases hentry
  | claim claim hbuilt htotal hvalid hunique hclaims hindex =>
    have hnone := ClaimPool.getElem?_of_isUnique hunique
    have hentry : store'.g_claims[claim.getSource]? = some (claim.isValid env).1 := by
      rw [hclaims, getElem?_insert_self]
    constructor
    · intro hafter _ _ _ _
      obtain ⟨record, hrecord, -⟩ := hafter _ _ hentry
      by_contra hno
      rw [hindex, if_neg hno, hcoherent.index_eq_none hnone] at hrecord
      cases hrecord
    · intro hwritten key entry hkey
      rw [hindex, if_pos (hwritten _ _ hnone hentry), getElem?_insert]
      rw [hclaims, getElem?_insert] at hkey
      split_ifs with heq
      · rw [if_pos heq] at hkey
        rw [← Option.some.inj hkey]
        exact ⟨_, rfl, rfl, rfl⟩
      · rw [if_neg heq] at hkey
        exact hcopied key entry hkey

/-- The map can be rebuilt after the call, if it could before, exactly if a new claim was
written and has not been paid. -/
theorem learns_preserved_iff
    (hcoherent : store.Coherent env) (hpreserved : store.Preserved env tip) :
    store'.Preserved env tip ↔ ∀ (source : CScript) (claim : Claim),
      store.g_claims[source]? = none → store'.g_claims[source]? = some claim →
        written = true ∧ countedTotal env tip source = 0 := by
  rw [preserved_iff_of_learned h.learned hpreserved, h.copied_iff hcoherent hpreserved.copied]
  unfold ClaimPool.NewUnpaid
  simp only [forall_and]

end

/-! ## The calls that learn a claim -/

theorem nTotalReceived_ofCClaim (m_claim : CClaim) : (ofCClaim env m_claim).nTotalReceived = 0 := by
  have hcore := (@built_ofCClaim env m_claim).core_eq
  rw [m_claim_ofCClaim] at hcore
  rw [← hcore]
  rfl

/-- The source that is read off an address. -/
def Env.addressSource (env : Env) (address : String) : CScript :=
  if isValidDestination (env.host.decodeDestination address) then env.getScriptFromAddress address
  else env.getScriptFromBtcAddress address

section

variable {source_address target_address signature_string : String}
    (h : ofStrings env texts source_address target_address signature_string = claim)
    (hinit : claim.m_init = true)
include h hinit

/-- A claim made of texts is one made of scripts, which come from the addresses alone, unless
it is null. -/
theorem ofStrings_of_init : claim.m_claim.source = env.addressSource source_address ∧
      claim.m_claim.target = env.getScriptFromAddress target_address ∧
      ofCClaim env claim.m_claim = claim := by
  have hnull : null texts ≠ claim := by
    rintro rfl
    cases hinit
  have hmade {m_claim : CClaim} (hclaim : ofCClaim env m_claim = claim) :
      claim.m_claim = m_claim ∧ ofCClaim env claim.m_claim = claim := by
    rw [← hclaim, m_claim_ofCClaim]
    exact ⟨rfl, rfl⟩
  unfold ofStrings at h
  dsimp only at h
  split at h
  · exact absurd h hnull
  · split at h
    -- the class of the address, a key hash or not
    all_goals split at h
    all_goals
      first
      | (obtain ⟨hclaim, hsame⟩ := hmade h; rw [hsame, hclaim]; exact ⟨rfl, rfl, rfl⟩)
      | split at h
        · exact absurd h hnull
        · obtain ⟨hclaim, hsame⟩ := hmade h
          rw [hsame, hclaim]
          exact ⟨rfl, rfl, rfl⟩

theorem built_ofStrings : claim.Built env ∧ claim.nTotalReceived = 0 := by
  rw [← (ofStrings_of_init h hinit).2.2]
  exact ⟨built_ofCClaim _, nTotalReceived_ofCClaim _⟩

end

theorem Claim.Built.setTime (h : claim.Built env) (nTime : ℤ) :
    ({ claim with nTime := nTime } : Claim).Built env := by
  obtain ⟨hcore, helectrum⟩ := h
  exact ⟨hcore, helectrum⟩

theorem Claim.Built.setSeen (h : claim.Built env) (m_seen : Bool) :
    ({ claim with m_seen := m_seen } : Claim).Built env := by
  obtain ⟨hcore, helectrum⟩ := h
  exact ⟨hcore, helectrum⟩

theorem learns_addClaim (hbuilt : claim.Built env) (htotal : claim.nTotalReceived = 0)
    (hvalid : (claim.isValid env).2 = .OK) (hunique : store.g_claims.isUnique claim = true) :
    store.Learns env written (addClaim
      { store with g_claims := store.g_claims.insert claim.getSource (claim.isValid env).1 }
      (claim.isValid env).1 written) := by
  refine .claim claim hbuilt htotal hvalid hunique (g_claims_addClaim _ _ _) ?_
  unfold addClaim
  split_ifs
  · rw [getSource_isValid]
  · rfl

theorem learns_register (now : ℤ) (hinit : claim.m_init = true →
    claim.Built env ∧ claim.nTotalReceived = 0) :
    store.Learns env written (store.register env now written claim) := by
  unfold register
  split_ifs
  · exact .nothing rfl rfl
  · rcases ClaimPool.insertClaim_cases env store.g_claims { claim with nTime := now } with
      ⟨hvalid, hunique, hinsert⟩ | ⟨-, hrefused⟩
    · have hinserted := ClaimPool.m_init_of_isValid hvalid
      obtain ⟨hbuilt, htotal⟩ := hinit hinserted
      rw [hinsert, if_pos rfl]
      exact learns_addClaim (hbuilt.setTime now) htotal hvalid hunique
    · rw [hrefused, if_neg Bool.false_ne_true]
      exact .nothing rfl rfl

theorem ClaimStore.Learns.of_claims_seen {claims_seen : Std.ExtTreeMap CScript ℤ compare}
    (h : ClaimStore.Learns env written { store with claims_seen := claims_seen } store') :
    store.Learns env written store' := by
  cases h with
  | nothing hclaims hindex => exact .nothing hclaims hindex
  | claim claim hbuilt htotal hvalid hunique hclaims hindex =>
    exact .claim claim hbuilt htotal hvalid hunique hclaims hindex

theorem learns_processClaim (now : ℤ) (message : CClaim) :
    store.Learns env written (store.processClaim env texts now written message) := by
  unfold processClaim
  dsimp only
  split_ifs with hsnapshot hbtc hvalid hseen hbtc' hvalid'
  any_goals exact .nothing rfl rfl
  refine ClaimStore.Learns.of_claims_seen (learns_register now fun hinit => ?_)
  rw [m_init_isValid] at hinit
  obtain ⟨hbuilt, htotal⟩ := built_ofStrings rfl hinit
  refine ⟨hbuilt.isValid, ?_⟩
  rw [isValid_fst_eq]
  exact htotal

theorem learns_queueclaim (now : ℤ) (strAddress strSign strMessage : String) :
    store.Learns env written
      (store.queueclaim env texts now written strAddress strSign strMessage) := by
  unfold queueclaim
  dsimp only
  split_ifs
  · exact .nothing rfl rfl
  · exact learns_register now (built_ofStrings rfl)
  · exact .nothing rfl rfl

/-! ## Claim sets -/

/-- The claim in the map is marked as seen. -/
def ClaimStore.see (store : ClaimStore) (source : CScript) (entry : Claim) (nTime : ℤ) :
    ClaimStore :=
  { store with
    g_claims := store.g_claims.insert source { entry with m_seen := true, nTime := nTime } }

/-- The copy of a claim is marked as seen. -/
def ClaimStore.seeCopy (store : ClaimStore) (source : CScript) (record : ClaimRecord) (nTime : ℤ) :
    ClaimStore :=
  { store with
    g_claimindex := store.g_claimindex.insert source
      { record with m_seen := true, nTime := nTime } }

theorem ClaimStore.Coherent.see (h : store.Coherent env)
    (hentry : store.g_claims[source]? = some entry) (nTime : ℤ) :
    (store.see source entry nTime).Coherent env := by
  refine ⟨?_, ?_, ?_, ?_⟩
  · exact h.sound.replace hentry (fun hbuilt => (hbuilt.setTime nTime).setSeen true) rfl rfl
  · exact h.tidy.replace hentry rfl
  · intro key other hother
    rw [ClaimStore.see, getElem?_insert] at hother
    split_ifs at hother with heq
    · obtain ⟨hvalid, hstandalone⟩ := h.admitted source entry hentry
      rw [← Option.some.inj hother]
      exact ⟨hvalid, hstandalone⟩
    · exact h.admitted key other hother
  · intro key record hrecord
    obtain ⟨claim, hclaim, hsame⟩ := h.copies key record hrecord
    rw [ClaimStore.see, getElem?_insert]
    split_ifs with heq
    · obtain rfl : source = key := Std.LawfulEqCmp.eq_of_compare heq
      obtain rfl : entry = claim := Option.some.inj (hentry.symm.trans hclaim)
      exact ⟨_, rfl, hsame⟩
    · exact ⟨claim, hclaim, hsame⟩

theorem ClaimStore.Coherent.seeCopy (h : store.Coherent env)
    (hrecord : store.g_claimindex[source]? = some record) (nTime : ℤ) :
    (store.seeCopy source record nTime).Coherent env := by
  refine ⟨h.sound, h.tidy, h.admitted, fun key other hother => ?_⟩
  rw [ClaimStore.seeCopy, getElem?_insert] at hother
  split_ifs at hother with heq
  · obtain rfl : source = key := Std.LawfulEqCmp.eq_of_compare heq
    obtain ⟨claim, hentry, hsame⟩ := h.copies source record hrecord
    exact ⟨claim, hentry, by rw [← Option.some.inj hother]; exact hsame⟩
  · exact h.copies key other hother

/-- The branch for a known source, case by case. -/
theorem applyKnown_cases (h : store.Coherent env) (claim entry : Claim) (written : Bool) :
    let seen := store.see claim.getSource entry claim.nTime
    store.applyKnown env written claim entry = (store, true) ∨
    (store.g_claimindex[claim.getSource]? = none ∧
      store.applyKnown env written claim entry = (seen, false)) ∨
    ∃ record, store.g_claimindex[claim.getSource]? = some record ∧ entry.m_seen = false ∧
      store.applyKnown env written claim entry =
        (if written then seen.seeCopy claim.getSource record claim.nTime else seen, written) := by
  unfold applyKnown
  by_cases hseen : entry.m_seen = true
  · left
    rw [if_pos hseen]
  · right
    rw [if_neg hseen]
    dsimp only
    cases hrecord : store.g_claimindex[claim.getSource]? with
    | none => exact .inl ⟨rfl, rfl⟩
    | some record =>
      refine .inr ⟨record, rfl, Bool.eq_false_iff.mpr hseen, ?_⟩
      have hclaim : (ofRecord env record).m_claim = record.m_claim :=
        m_claim_ofCClaim record.m_claim
      -- the claim that is read, changed and written back
      let claim_t : Claim := { ofRecord env record with nTime := claim.nTime, m_seen := true }
      have hcopy : claim_t.toRecord = { record with m_seen := true, nTime := claim.nTime } := by
        change ClaimRecord.mk (ofRecord env record).m_claim _ _ _ = _
        rw [hclaim]
        rfl
      have hkey : claim_t.getSource = claim.getSource := h.getSource_reloaded hrecord []
      change (addClaim _ claim_t written, written) = _
      unfold addClaim seeCopy
      rw [hcopy, hkey]
      rfl

/-- The branch for a new source: the claim is refused, or it is learned and the loop goes on if
the write succeeds. -/
theorem applyNew_cases (hinit : claim.m_init = true → claim.Built env ∧ claim.nTotalReceived = 0)
    (store : ClaimStore) : (∀ written, store.applyNew env written claim = (store, false)) ∨
    (store.g_claims[claim.getSource]? = none ∧ ∀ written, ∃ store' : ClaimStore,
      store.applyNew env written claim = (store', written) ∧ store.Learns env written store' ∧
        store'.g_claims[claim.getSource]?.isSome = true) := by
  unfold applyNew
  rcases ClaimPool.insertClaim_cases env store.g_claims { claim with m_seen := true } with
    ⟨hvalid, hunique, hinsert⟩ | ⟨-, hrefused⟩
  · right
    have hinserted := ClaimPool.m_init_of_isValid hvalid
    obtain ⟨hbuilt, htotal⟩ := hinit hinserted
    refine ⟨ClaimPool.getElem?_of_isUnique hunique, fun written => ?_⟩
    rw [hinsert, if_pos rfl]
    refine ⟨_, rfl, learns_addClaim (hbuilt.setSeen true) htotal hvalid hunique, ?_⟩
    have hsource : ({ claim with m_seen := true } : Claim).getSource = claim.getSource := rfl
    rw [g_claims_addClaim, hsource]
    rw [getElem?_insert_self]
    rfl
  · left
    intro written
    rw [hrefused, if_neg Bool.false_ne_true]

/-- The body of the loop, case by case. -/
theorem applyClaim_cases (store : ClaimStore) (cClaim : CClaimSetClaim) :
    (∀ written, store.applyClaim env texts written cClaim = (store, false)) ∨
    (∃ source : CScript, store.g_claims[source]? = none ∧ ∀ written, ∃ store' : ClaimStore,
      store.applyClaim env texts written cClaim = (store', written) ∧
        store.Learns env written store' ∧ store'.g_claims[source]?.isSome = true) ∨
    ∃ claim entry : Claim, store.g_claims[claim.getSource]? = some entry ∧ ∀ written,
      store.applyClaim env texts written cClaim = store.applyKnown env written claim entry := by
  by_cases hvalid : ((cClaim.toClaim env).isValid env).2 = .OK ∧
      ((cClaim.rebuilt env texts).isValid env).2 = .OK
  · obtain ⟨hvalid, hvalid'⟩ := hvalid
    -- the claim is put together from the texts of the claim in the set
    let claim : Claim := ((cClaim.rebuilt env texts).isValid env).1
    have hinit (_ : claim.m_init = true) : claim.Built env ∧ claim.nTotalReceived = 0 := by
      have hrebuilt := ClaimPool.m_init_of_isValid hvalid'
      obtain ⟨hbuilt, htotal⟩ := built_ofStrings rfl hrebuilt
      refine ⟨Claim.Built.isValid (hbuilt.setTime cClaim.nTime), ?_⟩
      dsimp only [claim]
      rw [isValid_fst_eq]
      exact htotal
    have hbody (written : Bool) : store.applyClaim env texts written cClaim =
        (store.g_claims[claim.getSource]?).elim (store.applyNew env written claim)
          (store.applyKnown env written claim) := by
      unfold applyClaim
      rw [if_neg (by simp [hvalid]), if_neg (by simp [hvalid'])]
      dsimp only [claim]
      split
      · next hentry => rw [hentry, Option.elim_none]
      · next hentry => rw [hentry, Option.elim_some]
    simp only [hbody]
    cases hentry : store.g_claims[claim.getSource]? with
    | none =>
      rcases applyNew_cases hinit store with hrefused | ⟨hnone, hlearns⟩
      · exact .inl hrefused
      · exact .inr (.inl ⟨claim.getSource, hnone, hlearns⟩)
    | some entry => exact .inr (.inr ⟨claim, entry, hentry, fun _ => rfl⟩)
  · left
    intro written
    unfold applyClaim
    split_ifs with hfirst hsecond
    · rfl
    · rfl
    · exact absurd ⟨not_not.mp hfirst, not_not.mp hsecond⟩ hvalid

/-- The body of the loop keeps what the map and the index owe each other, and the totals. -/
theorem ClaimStore.Coherent.applyClaim (h : store.Coherent env) (written : Bool)
    (cClaim : CClaimSetClaim) : (store.applyClaim env texts written cClaim).1.Coherent env ∧
      store.g_claims.Learned (store.applyClaim env texts written cClaim).1.g_claims := by
  rcases applyClaim_cases store cClaim with
    hrefused | ⟨source, hnone, hlearns⟩ | ⟨claim, entry, hentry, hknown⟩
  · rw [hrefused]
    exact ⟨h, .refl _⟩
  · obtain ⟨store', happlied, hlearned, -⟩ := hlearns written
    rw [happlied]
    exact ⟨hlearned.coherent h, hlearned.learned⟩
  · have hsee := h.see hentry claim.nTime
    have hseen : store.g_claims.Learned
        (store.see claim.getSource entry claim.nTime).g_claims := by
      refine .insert (fun hnone => ?_) fun other hother => ?_
      · rw [hentry] at hnone
        cases hnone
      · rw [← Option.some.inj (hentry.symm.trans hother)]
    rw [hknown]
    rcases applyKnown_cases h claim entry written with
      hsame | ⟨-, hstop⟩ | ⟨record, hrecord, -, hgo⟩
    · rw [hsame]
      exact ⟨h, .refl _⟩
    · rw [hstop]
      exact ⟨hsee, hseen⟩
    · rw [hgo]
      split_ifs
      · exact ⟨hsee.seeCopy hrecord claim.nTime, hseen⟩
      · exact ⟨hsee, hseen⟩

theorem copied_see (hcopied : store.Copied) (nTime : ℤ) :
    ((store.see source entry nTime).seeCopy source record nTime).Copied := by
  intro key claim hentry
  rw [seeCopy, see] at hentry ⊢
  rw [getElem?_insert] at hentry ⊢
  split_ifs at hentry ⊢ with heq
  · rw [← Option.some.inj hentry]
    exact ⟨_, rfl, rfl, rfl⟩
  · exact hcopied key claim hentry

/-- The copies are up to date after the body of the loop, unless the loop stops at a write
that fails. -/
theorem copied_applyClaim (h : store.Coherent env) (hcopied : store.Copied)
    (written : Bool) (cClaim : CClaimSetClaim) :
    ((store.applyClaim env texts written cClaim).2 = true →
      (store.applyClaim env texts written cClaim).1.Copied) ∧
    ((store.applyClaim env texts written cClaim).2 = false →
      ((store.applyClaim env texts written cClaim).1.Copied ↔
        (store.applyClaim env texts true cClaim).2 = false)) := by
  rcases applyClaim_cases store cClaim with
    hrefused | ⟨source, hnone, hlearns⟩ | ⟨claim, entry, hentry, hknown⟩
  · rw [hrefused, hrefused]
    exact ⟨fun _ => hcopied, fun _ => iff_of_true hcopied rfl⟩
  · obtain ⟨store', happlied, hlearned, hnew⟩ := hlearns written
    obtain ⟨store'', happlied', -⟩ := hlearns true
    obtain ⟨claim, hentry⟩ := Option.isSome_iff_exists.mp hnew
    rw [happlied, happlied', hlearned.copied_iff h hcopied]
    refine ⟨fun hwritten _ _ _ _ => hwritten, fun hfailed => iff_of_false ?_ (by simp)⟩
    intro hwritten
    exact absurd (hwritten source claim hnone hentry) (Bool.eq_false_iff.mp hfailed)
  · obtain ⟨record, hrecord, -, hseen⟩ := hcopied claim.getSource entry hentry
    have hgoes : (store.applyKnown env true claim entry).2 = true := by
      rcases applyKnown_cases h claim entry true with hsame | ⟨hmissing, -⟩ | ⟨_, _, -, hgo⟩
      · rw [hsame]
      · rw [hrecord] at hmissing
        cases hmissing
      · rw [hgo]
    rw [hknown, hknown, hgoes]
    rcases applyKnown_cases h claim entry written with
      hsame | ⟨hmissing, -⟩ | ⟨_, _, hunseen, hgo⟩
    · rw [hsame]
      exact ⟨fun _ => hcopied, fun hstop => absurd hstop (by simp)⟩
    · rw [hrecord] at hmissing
      cases hmissing
    · rw [hgo]
      cases written with
      | true => exact ⟨fun _ => copied_see hcopied claim.nTime, fun hstop => absurd hstop (by simp)⟩
      | false =>
        refine ⟨fun hno => absurd hno (by simp), fun _ => iff_of_false ?_ (by simp)⟩
        -- the claim is marked as seen and its copy is not
        intro hafter
        obtain ⟨other, hother, -, hmarked⟩ := hafter claim.getSource
          { entry with m_seen := true, nTime := claim.nTime }
          (getElem?_insert_self ..)
        obtain rfl : record = other := Option.some.inj (hrecord.symm.trans hother)
        rw [hseen, hunseen] at hmarked
        cases hmarked

/-- The loop of `ApplyClaimSet` stops at a write that fails: with a write that succeeds it would
have gone on. -/
def ClaimStore.writeFails (env : Env) (texts : Texts) :
    List (CClaimSetClaim × Bool) → ClaimStore → Bool
  | [], _ => false
  | (cClaim, written) :: rest, store =>
    let applied := store.applyClaim env texts written cClaim
    if applied.2 then writeFails env texts rest applied.1
    else (store.applyClaim env texts true cClaim).2

section ClaimSet

variable (claims : List (CClaimSetClaim × Bool))

theorem ClaimStore.Coherent.applyClaimSet (h : store.Coherent env) :
    (store.applyClaimSet env texts claims).Coherent env ∧
      store.g_claims.Learned (store.applyClaimSet env texts claims).g_claims := by
  induction claims generalizing store with
  | nil => exact ⟨h, .refl _⟩
  | cons first rest ih =>
    obtain ⟨cClaim, written⟩ := first
    obtain ⟨hnext, hlearned⟩ := h.applyClaim written cClaim
    rw [applyClaimSet]
    split_ifs
    · obtain ⟨hend, hrest⟩ := ih hnext
      exact ⟨hend, hlearned.trans hrest⟩
    · exact ⟨hnext, hlearned⟩

theorem copied_applyClaimSet_iff (h : store.Coherent env) (hcopied : store.Copied) :
    (store.applyClaimSet env texts claims).Copied ↔
      store.writeFails env texts claims = false := by
  induction claims generalizing store with
  | nil => exact iff_of_true hcopied rfl
  | cons first rest ih =>
    obtain ⟨cClaim, written⟩ := first
    obtain ⟨hgoes, hstops⟩ := @copied_applyClaim env texts store h hcopied written cClaim
    rw [applyClaimSet, writeFails]
    by_cases hnext : (store.applyClaim env texts written cClaim).2 = true
    · rw [if_pos hnext, if_pos hnext]
      exact ih (h.applyClaim written cClaim).1 (hgoes hnext)
    · rw [if_neg hnext, if_neg hnext]
      exact hstops (Bool.eq_false_iff.mpr hnext)

/-- The map can be rebuilt after a claim set, if it could before, exactly if no write has
failed and no claim of the set that is new has been paid. -/
theorem applyClaimSet_preserved_iff (h : store.Coherent env)
    (hpreserved : store.Preserved env tip) :
    (store.applyClaimSet env texts claims).Preserved env tip ↔
      store.writeFails env texts claims = false ∧
        store.g_claims.NewUnpaid env tip (store.applyClaimSet env texts claims).g_claims := by
  rw [preserved_iff_of_learned (h.applyClaimSet claims).2 hpreserved,
    copied_applyClaimSet_iff claims h hpreserved.copied]

end ClaimSet

end Patchcoin
