import Patchcoin.Claim.Tidy

/-!
# Rebuilding the claim pool

At startup the node reads every claim of the database, counts its total along the
active chain and inserts it as if it had just arrived.  `Claim::Insert` checks the
claim again and tests it against the claims inserted so far, and the first refusal
stops the node.

`restartsEqual_iff` says when the map comes out as it was, for a map and a database
that belong together (`ClaimStore.Coherent`): every claim has its copy, its total is
what the chain has paid, and the total is within the limits that `Claim::IsValid`
tests.  That no two stored claims overlap need not be asked, because the map that
they come from is tidy.
-/

namespace Patchcoin

open Std.ExtTreeMap

variable {env : Env} {pool : ClaimPool} {claim claim' : Claim} {key source : CScript}
  {chain : IndexChain}

/-! ## Totals and limits -/

/-- What `GetTotalReceived` counts for a claim on the source.  A source of the snapshot that
is worth nothing is not counted. -/
def countedTotal (env : Env) (chain : IndexChain) (source : CScript) : ℕ :=
  if inSnapshot env source = true ∧ eligibleFor env source ≤ 0 then 0 else claimedTotal chain source

theorem countedTotal_cons (pindex : CBlockIndex) (chain : IndexChain) (source : CScript) :
    countedTotal env (pindex :: chain) source =
      countedTotal env [pindex] source + countedTotal env chain source := by
  unfold countedTotal
  split_ifs
  · rfl
  · rw [claimedTotal_cons, claimedTotal_cons]
    rfl

theorem Claim.Worth.getTotalReceived_eq (h : claim.Worth env) (chain : IndexChain) :
    (claim.getTotalReceived env chain 0 0).2.1 = countedTotal env chain claim.getSource := by
  have hcondition : (claim.m_is_btc = false ∧ claim.getEligible env ≤ 0) ↔
      (inSnapshot env claim.getSource = true ∧ eligibleFor env claim.getSource ≤ 0) := by
    rw [h.m_is_btc_eq, h.getEligible_eq, h.getSource_eq, Bool.not_eq_false']
  rw [Claim.getTotalReceived_eq, countedTotal]
  simp only [hcondition]
  split_ifs
  · rfl
  · rfl

/-- The limits on the total of a source that `Claim::IsValid` tests. -/
def WithinLimits (env : Env) (source : CScript) (total : ℤ) : Prop :=
  total ≤ MAX_CLAIM_REWARD ∧ (Countable env source → total ≤ eligibleFor env source)

theorem withinLimits_zero (source : CScript) : WithinLimits env source 0 :=
  ⟨by decide, fun _ => (eligibleFor_bounds env source).1⟩

/-! ## Admitted claims -/

/-- The claim passes `Insert` on an empty map, before anything was paid. -/
structure Claim.Admitted (env : Env) (claim : Claim) : Prop where
  valid : ((Claim.ofCClaim env claim.m_claim).isValid env).2 = .OK
  standalone : ClaimPool.standalone claim = true

namespace Claim

theorem Built.ofCClaim_eq (hbuilt : claim.Built env) (hbuilt' : claim'.Built env)
    (hclaim : claim.m_claim = claim'.m_claim) : claim.core = claim'.core := by
  rw [hbuilt.core_eq, hbuilt'.core_eq, hclaim]

theorem scripts_of_core_eq (h : claim.core = claim'.core) :
    claim.getSource = claim'.getSource ∧ claim.getSource? = claim'.getSource? ∧
      claim.getTarget = claim'.getTarget := by
  have hsource := congrArg getSource h
  have hsource' := congrArg getSource? h
  have htarget := congrArg getTarget h
  exact ⟨hsource, hsource', htarget⟩

theorem standalone_core (claim : Claim) :
    ClaimPool.standalone claim.core = ClaimPool.standalone claim := rfl

theorem m_claim_isValid (claim : Claim) : (claim.isValid env).1.m_claim = claim.m_claim := by
  rw [isValid_fst_eq claim]

section

variable (h : claim.Admitted env) (hbuilt : claim.Built env)
include h hbuilt

/-- Whether a claim is admitted is a matter of its message. -/
theorem Admitted.of_m_claim_eq
    (hbuilt' : claim'.Built env) (hclaim : claim'.m_claim = claim.m_claim) :
    claim'.Admitted env := by
  refine ⟨by rw [hclaim]; exact h.valid, ?_⟩
  rw [← standalone_core, hbuilt'.ofCClaim_eq hbuilt hclaim, standalone_core]
  exact h.standalone

theorem Admitted.m_init : claim.m_init = true := by
  have hinit := ClaimPool.m_init_of_isValid h.valid
  rw [← hbuilt.core_eq] at hinit
  exact hinit

theorem Admitted.worth : claim.Worth env :=
  hbuilt.worth (h.m_init hbuilt)

/-- An admitted claim is valid as long as its total is within the limits. -/
theorem Admitted.isValid_iff :
    (claim.isValid env).2 = .OK ↔ WithinLimits env claim.getSource claim.nTotalReceived := by
  have hworth := h.worth hbuilt
  have hnew : claim.core.Built env := by
    rw [hbuilt.core_eq]
    exact built_ofCClaim claim.m_claim
  have hvalid := h.valid
  rw [← hbuilt.core_eq, hnew.isValid_iff] at hvalid
  obtain ⟨hfields, hproof, hverified, -⟩ := hvalid
  have hclass : claim.m_is_btc = false ↔ inSnapshot env claim.getSource = true := by
    rw [hworth.m_is_btc_eq, hworth.getSource_eq, Bool.not_eq_false']
  rw [hbuilt.isValid_iff, WithinLimits, Countable, ← hclass, hworth.getSource_eq]
  constructor
  · rintro ⟨-, -, -, hamounts⟩
    exact hamounts
  · intro hamounts
    exact ⟨hfields, hproof, hverified, hamounts⟩

end

end Claim

/-! ## Insertion -/

namespace ClaimPool

variable {entry : Claim}

theorem isUnique_isValid (pool : ClaimPool) (claim : Claim) :
    pool.isUnique (claim.isValid env).1 = pool.isUnique claim := by
  rw [Claim.isValid_fst_eq claim]
  rfl

theorem getElem?_of_isUnique (hunique : pool.isUnique claim = true) :
    pool[claim.getSource]? = none := by
  have hnot := not_contains_of_isUnique hunique
  rw [contains_eq_isSome_getElem?, Option.isSome_eq_false_iff] at hnot
  exact Option.isNone_iff_eq_none.mp hnot

/-- `Claim::Insert` stores a claim that is valid and overlaps with none, and nothing else. -/
theorem insertClaim_cases (env : Env) (pool : ClaimPool) (claim : Claim) :
    ((claim.isValid env).2 = .OK ∧ pool.isUnique claim = true ∧ pool.insertClaim env claim =
      (pool.insert claim.getSource (claim.isValid env).1, (claim.isValid env).1, true)) ∨
    (¬ ((claim.isValid env).2 = .OK ∧ pool.isUnique claim = true) ∧
      pool.insertClaim env claim = (pool, (claim.isValid env).1, false)) := by
  by_cases hfresh : (claim.isValid env).2 = .OK ∧ pool.isUnique claim = true
  · obtain ⟨hvalid, hunique⟩ := hfresh
    refine .inl ⟨hvalid, hunique, ?_⟩
    have hagain := insertClaim_of_isUnique (Claim.isValid_isValid hvalid)
      (show pool.isUnique (claim.isValid env).1 = true by rw [isUnique_isValid, hunique])
    rw [Claim.getSource_isValid] at hagain
    rw [← hagain]
    -- the second check of a claim that has passed changes nothing
    have hpair : claim.isValid env = ((claim.isValid env).1, .OK) := Prod.ext rfl hvalid
    unfold insertClaim
    rw [Claim.isValid_isValid hvalid, ← hpair]
  · refine .inr ⟨hfresh, ?_⟩
    unfold insertClaim
    dsimp only
    rw [isUnique_isValid, if_pos]
    rw [Bool.or_eq_true, bne_iff_ne, Bool.not_eq_true', ← Bool.not_eq_true]
    exact not_and_or.mp hfresh

/-- Two claims without a common script. -/
def Apart (claim claim' : Claim) : Prop :=
  claim.getSource ≠ claim'.getSource ∧ claim.getTarget ≠ claim'.getSource ∧
    claim.getSource ≠ claim'.getTarget ∧ claim.getTarget ≠ claim'.getTarget

theorem isUnique_insert (hunique : pool.isUnique claim' = true) (hapart : Apart claim claim') :
    isUnique (pool.insert claim.getSource (claim.isValid env).1) claim' = true := by
  rw [isUnique_iff] at hunique ⊢
  refine ⟨hunique.1, fun key entry hentry => ?_⟩
  rw [getElem?_insert] at hentry
  split_ifs at hentry with heq
  · obtain rfl := Std.LawfulEqCmp.eq_of_compare heq
    rw [← Option.some.inj hentry, Claim.getTarget_isValid]
    exact hapart
  · exact hunique.2 key entry hentry

/-! ## Loading -/

/-- The claim that the startup makes of a record. -/
def reloaded (env : Env) (tip : IndexChain) (record : ClaimRecord) : Claim :=
  { Claim.ofRecord env record with
    nTotalReceived := ((Claim.ofRecord env record).getTotalReceived env tip 0 0).2.1 }

theorem loadClaims_cons (tip : IndexChain) (record : ClaimRecord) (rest : List ClaimRecord)
    (pool : ClaimPool) : pool.loadClaims env tip (record :: rest) =
      if (pool.insertClaim env (reloaded env tip record)).2.2 then
        loadClaims env tip rest (pool.insertClaim env (reloaded env tip record)).1
      else ((pool.insertClaim env (reloaded env tip record)).1, false) := rfl

variable {tip : IndexChain} {records : List ClaimRecord}

/-- A startup that succeeds has found every record valid, and the map holds what it held and
what was made of the records. -/
theorem loadClaims_of_ok (hok : (pool.loadClaims env tip records).2 = true) :
    (∀ record ∈ records, ((reloaded env tip record).isValid env).2 = .OK) ∧
    ∀ (key : CScript) (entry : Claim), (pool.loadClaims env tip records).1[key]? = some entry ↔
      pool[key]? = some entry ∨ ∃ record ∈ records, (reloaded env tip record).getSource = key ∧
        ((reloaded env tip record).isValid env).1 = entry := by
  induction records generalizing pool with
  | nil => exact ⟨by simp, fun key entry => by simp [loadClaims]⟩
  | cons record rest ih =>
    rw [loadClaims_cons] at hok ⊢
    rcases insertClaim_cases env pool (reloaded env tip record) with
      ⟨hvalid, hunique, hinsert⟩ | ⟨-, hrefused⟩
    · rw [hinsert, if_pos rfl] at hok ⊢
      obtain ⟨hrest, hentries⟩ := ih hok
      refine ⟨List.forall_mem_cons.mpr ⟨hvalid, hrest⟩, fun key entry => ?_⟩
      rw [hentries, List.exists_mem_cons_iff, ← or_assoc, getElem?_insert]
      refine or_congr_left ?_
      split_ifs with heq
      · obtain rfl := Std.LawfulEqCmp.eq_of_compare heq
        simp [getElem?_of_isUnique hunique]
      · have hne : (reloaded env tip record).getSource ≠ key := by
          rintro rfl
          exact heq Std.ReflCmp.compare_self
        simp [hne]
    · rw [hrefused, if_neg Bool.false_ne_true] at hok
      cases hok

/-- A startup succeeds on records that are valid and have no script in common. -/
theorem loadClaims_of_apart
    (hvalid : ∀ record ∈ records, ((reloaded env tip record).isValid env).2 = .OK)
    (hunique : ∀ record ∈ records, pool.isUnique (reloaded env tip record) = true)
    (hapart : records.Pairwise fun record record' =>
      Apart (reloaded env tip record) (reloaded env tip record')) :
    (pool.loadClaims env tip records).2 = true := by
  induction records generalizing pool with
  | nil => rfl
  | cons record rest ih =>
    obtain ⟨hfirst, hrest⟩ := List.pairwise_cons.mp hapart
    rcases insertClaim_cases env pool (reloaded env tip record) with
      ⟨-, -, hinsert⟩ | ⟨hnot, -⟩
    · rw [loadClaims_cons, hinsert, if_pos rfl]
      refine ih (fun other hother => hvalid other (.tail _ hother))
        (fun other hother => ?_) hrest
      exact isUnique_insert (hunique other (.tail _ hother)) (hfirst other hother)
    · exact absurd ⟨hvalid record (.head _), hunique record (.head _)⟩
        hnot

end ClaimPool

/-! ## Restarts -/

/-- The map that a restart rebuilds, and whether the startup succeeds. -/
def ClaimStore.restart (env : Env) (tip : IndexChain) (store : ClaimStore) : ClaimPool × Bool :=
  (∅ : ClaimPool).loadClaims env tip (store.g_claimindex.toList.map Prod.snd)

/-- What a restart should keep of a claim. -/
def Claim.kept (claim : Claim) : Option CScript × CScript × ℤ × Bool × ℤ :=
  (claim.getSource?, claim.getTarget, claim.nTime, claim.m_seen, claim.nTotalReceived)

/-- A restart succeeds and leaves the map as it is, as far as it is to be kept. -/
def ClaimStore.RestartsEqual (env : Env) (tip : IndexChain) (store : ClaimStore) : Prop :=
  (store.restart env tip).2 = true ∧
    (store.restart env tip).1.image Claim.kept = store.g_claims.image Claim.kept

/-- The map and the database belong together: the claims were admitted, and what is stored
for a source is a copy of the claim in the map, perhaps an old one. -/
structure ClaimStore.Coherent (env : Env) (store : ClaimStore) : Prop where
  sound : store.g_claims.Sound env
  tidy : store.g_claims.Tidy
  admitted : ∀ (source : CScript) (claim : Claim), store.g_claims[source]? = some claim →
    claim.Admitted env
  copies : ∀ (source : CScript) (record : ClaimRecord), store.g_claimindex[source]? = some record →
    ∃ claim : Claim, store.g_claims[source]? = some claim ∧ record.m_claim = claim.m_claim

/-- Every claim has an up-to-date copy, apart from the total. -/
def ClaimStore.Copied (store : ClaimStore) : Prop :=
  ∀ (source : CScript) (claim : Claim), store.g_claims[source]? = some claim →
    ∃ record : ClaimRecord, store.g_claimindex[source]? = some record ∧
      record.nTime = claim.nTime ∧ record.m_seen = claim.m_seen

/-- The totals are what the chain has paid. -/
def ClaimPool.Counted (env : Env) (tip : IndexChain) (pool : ClaimPool) : Prop :=
  ∀ (source : CScript) (claim : Claim), pool[source]? = some claim →
    claim.nTotalReceived = countedTotal env tip source

/-- The totals are within the limits. -/
def ClaimPool.Limited (env : Env) (pool : ClaimPool) : Prop :=
  ∀ (source : CScript) (claim : Claim), pool[source]? = some claim →
    WithinLimits env source claim.nTotalReceived

/-- The claims can be rebuilt from the database and the chain. -/
structure ClaimStore.Preserved (env : Env) (tip : IndexChain) (store : ClaimStore) : Prop where
  copied : store.Copied
  counted : store.g_claims.Counted env tip
  limited : store.g_claims.Limited env

section Restart

variable {store : ClaimStore} {tip : IndexChain} {record : ClaimRecord}

theorem ClaimStore.Coherent.getSource_eq (h : store.Coherent env)
    (hentry : store.g_claims[source]? = some claim) : claim.getSource = source := by
  obtain ⟨-, hsource⟩ := h.sound source claim hentry
  exact hsource (h.tidy.init source claim hentry)

theorem built_ofRecord (record : ClaimRecord) : (Claim.ofRecord env record).Built env := by
  obtain ⟨hcore, helectrum⟩ := @Claim.built_ofCClaim env record.m_claim
  exact ⟨hcore, helectrum⟩

theorem built_reloaded (tip : IndexChain) (record : ClaimRecord) :
    (ClaimPool.reloaded env tip record).Built env := by
  obtain ⟨hcore, helectrum⟩ := @built_ofRecord env record
  exact ⟨hcore, helectrum⟩

theorem m_claim_reloaded (tip : IndexChain) (record : ClaimRecord) :
    (ClaimPool.reloaded env tip record).m_claim = record.m_claim :=
  Claim.m_claim_ofCClaim record.m_claim

section

variable (h : store.Coherent env) (hrecord : store.g_claimindex[source]? = some record)
include h hrecord

/-- The claim that is rebuilt from the copy of a claim. -/
theorem ClaimStore.Coherent.reloaded
    (hentry : store.g_claims[source]? = some claim) (tip : IndexChain) :
    (ClaimPool.reloaded env tip record).core = claim.core ∧
      (ClaimPool.reloaded env tip record).nTotalReceived = countedTotal env tip source ∧
      (ClaimPool.reloaded env tip record).Admitted env := by
  obtain ⟨other, hother, hclaim⟩ := h.copies source record hrecord
  obtain rfl : claim = other := Option.some.inj (hentry.symm.trans hother)
  obtain ⟨hbuilt, -⟩ := h.sound source claim hentry
  have hmessage : (Claim.ofRecord env record).m_claim = claim.m_claim :=
    (Claim.m_claim_ofCClaim record.m_claim).trans hclaim
  have hadmitted := (h.admitted source claim hentry).of_m_claim_eq hbuilt
    (built_ofRecord record) hmessage
  have hcore := (built_ofRecord record).ofCClaim_eq hbuilt hmessage
  have hsource : (Claim.ofRecord env record).getSource = source :=
    (Claim.scripts_of_core_eq hcore).1.trans (h.getSource_eq hentry)
  refine ⟨hcore, ?_, ⟨hadmitted.valid, hadmitted.standalone⟩⟩
  have htotal := (hadmitted.worth (built_ofRecord record)).getTotalReceived_eq tip
  rw [hsource] at htotal
  exact htotal

theorem ClaimStore.Coherent.getSource_reloaded (tip : IndexChain) :
    (ClaimPool.reloaded env tip record).getSource = source := by
  obtain ⟨claim, hentry, -⟩ := h.copies source record hrecord
  have hcore := (h.reloaded hrecord hentry tip).1
  exact (Claim.scripts_of_core_eq hcore).1.trans (h.getSource_eq hentry)

end

theorem mem_records {index : Std.ExtTreeMap CScript ClaimRecord compare} :
    record ∈ index.toList.map Prod.snd ↔ ∃ source : CScript, index[source]? = some record := by
  rw [List.mem_map]
  constructor
  · rintro ⟨⟨source, other⟩, hmem, rfl⟩
    exact ⟨source, mem_toList_iff_getElem?_eq_some.mp hmem⟩
  · rintro ⟨source, hrecord⟩
    exact ⟨(source, record), mem_toList_iff_getElem?_eq_some.mpr hrecord, rfl⟩

section

variable (h : store.Coherent env)
include h

/-- After a restart that succeeds, the map holds exactly what is rebuilt from the records. -/
theorem ClaimStore.Coherent.restart_entry
    (hok : (store.restart env tip).2 = true) (source : CScript) :
    (store.restart env tip).1[source]? = (store.g_claimindex[source]?).map
      fun record => ((ClaimPool.reloaded env tip record).isValid env).1 := by
  ext entry
  rw [ClaimStore.restart, (ClaimPool.loadClaims_of_ok hok).2, Option.map_eq_some_iff]
  constructor
  · rintro (hempty | ⟨record, hmem, hsource, rfl⟩)
    · cases hempty
    · obtain ⟨key, hrecord⟩ := mem_records.mp hmem
      rw [h.getSource_reloaded hrecord] at hsource
      exact ⟨record, hsource ▸ hrecord, rfl⟩
  · rintro ⟨record, hrecord, rfl⟩
    exact .inr ⟨record, mem_records.mpr ⟨source, hrecord⟩, h.getSource_reloaded hrecord tip, rfl⟩

/-- Two copies of different claims have no script in common. -/
theorem ClaimStore.Coherent.apart {record' : ClaimRecord}
    (hrecord : store.g_claimindex[source]? = some record)
    (hrecord' : store.g_claimindex[key]? = some record') (hne : source ≠ key) :
    ClaimPool.Apart (ClaimPool.reloaded env tip record) (ClaimPool.reloaded env tip record') := by
  obtain ⟨claim, hentry, -⟩ := h.copies source record hrecord
  obtain ⟨claim', hentry', -⟩ := h.copies key record' hrecord'
  have htarget := (Claim.scripts_of_core_eq (h.reloaded hrecord hentry tip).1).2.2
  have htarget' := (Claim.scripts_of_core_eq (h.reloaded hrecord' hentry' tip).1).2.2
  -- a key of the map is not the target of a claim in it
  have hcontains {script : CScript} {found : Claim}
      (hfound : store.g_claims[script]? = some found) :
      store.g_claims.contains script = true := by
    rw [contains_eq_isSome_getElem?, hfound]
    rfl
  unfold ClaimPool.Apart
  rw [h.getSource_reloaded hrecord, h.getSource_reloaded hrecord']
  refine ⟨hne, ?_, ?_, ?_⟩
  · intro heq
    have hclash := h.tidy.apart source claim hentry
    rw [show claim.getTarget = key from htarget.symm.trans heq, hcontains hentry'] at hclash
    cases hclash
  · intro heq
    have hclash := h.tidy.apart key claim' hentry'
    rw [show claim'.getTarget = source from htarget'.symm.trans heq.symm, hcontains hentry]
      at hclash
    cases hclash
  · intro heq
    exact hne (h.tidy.distinct source key claim claim' hentry hentry'
      (htarget.symm.trans (heq.trans htarget')))

/-- The rebuilt claim is valid if the total of the claim is right and within the limits. -/
theorem ClaimStore.Coherent.isValid_reloaded_iff
    (hrecord : store.g_claimindex[source]? = some record) :
    ((ClaimPool.reloaded env tip record).isValid env).2 = .OK ↔
      WithinLimits env source (countedTotal env tip source) := by
  obtain ⟨claim, hentry, -⟩ := h.copies source record hrecord
  obtain ⟨-, htotal, hadmitted⟩ := h.reloaded hrecord hentry tip
  rw [hadmitted.isValid_iff (built_reloaded tip record), htotal, h.getSource_reloaded hrecord]

theorem ClaimStore.Coherent.restart_ok
    (hlimits : ∀ source record, store.g_claimindex[source]? = some record →
      WithinLimits env source (countedTotal env tip source)) :
    (store.restart env tip).2 = true := by
  refine ClaimPool.loadClaims_of_apart ?_ ?_ ?_
  · intro record hmem
    obtain ⟨source, hrecord⟩ := mem_records.mp hmem
    exact (h.isValid_reloaded_iff hrecord).mpr (hlimits source record hrecord)
  · intro record hmem
    obtain ⟨source, hrecord⟩ := mem_records.mp hmem
    obtain ⟨claim, hentry, -⟩ := h.copies source record hrecord
    refine ClaimPool.isUnique_iff.mpr ⟨(h.reloaded hrecord hentry tip).2.2.standalone, ?_⟩
    intro key entry hempty
    cases hempty
  · rw [List.pairwise_map]
    refine distinct_keys_toList.imp_of_mem ?_
    rintro ⟨source, record⟩ ⟨key, record'⟩ hmem hmem' hne
    refine h.apart (mem_toList_iff_getElem?_eq_some.mp hmem)
      (mem_toList_iff_getElem?_eq_some.mp hmem') ?_
    rintro rfl
    exact hne Std.ReflCmp.compare_self

end

theorem kept_of_core_eq (hcore : claim.core = claim'.core) (htime : claim.nTime = claim'.nTime)
    (hseen : claim.m_seen = claim'.m_seen) (htotal : claim.nTotalReceived = claim'.nTotalReceived) :
    claim.kept = claim'.kept := by
  obtain ⟨-, hsource, htarget⟩ := Claim.scripts_of_core_eq hcore
  rw [Claim.kept, Claim.kept, hsource, htarget, htime, hseen, htotal]

theorem kept_isValid (claim : Claim) : (claim.isValid env).1.kept = claim.kept := by
  rw [Claim.isValid_fst_eq claim]
  rfl

/-- When a restart leaves the map as it is. -/
theorem restartsEqual_iff (h : store.Coherent env) :
    store.RestartsEqual env tip ↔ store.Preserved env tip := by
  constructor
  · rintro ⟨hok, himage⟩
    -- every claim of the map has come back, from the record of its source
    have hback (source : CScript) (claim : Claim)
        (hentry : store.g_claims[source]? = some claim) :
        (∃ record : ClaimRecord, store.g_claimindex[source]? = some record ∧
          record.nTime = claim.nTime ∧ record.m_seen = claim.m_seen) ∧
        claim.nTotalReceived = countedTotal env tip source ∧
        WithinLimits env source claim.nTotalReceived := by
      have hkept := ClaimPool.image_eq_iff.mp himage source
      rw [hentry, h.restart_entry hok, Option.map_map, Option.map_some] at hkept
      obtain ⟨record, hrecord, hsame⟩ := Option.map_eq_some_iff.mp hkept
      rw [Function.comp_apply, kept_isValid, Claim.kept, Claim.kept] at hsame
      simp only [Prod.mk.injEq] at hsame
      obtain ⟨-, -, htime, hseen, htotal⟩ := hsame
      have hvalid := (ClaimPool.loadClaims_of_ok hok).1 record (mem_records.mpr ⟨source, hrecord⟩)
      rw [← htotal, (h.reloaded hrecord hentry tip).2.1]
      exact ⟨⟨record, hrecord, htime, hseen⟩, rfl, (h.isValid_reloaded_iff hrecord).mp hvalid⟩
    exact ⟨fun source claim hentry => (hback source claim hentry).1,
      fun source claim hentry => (hback source claim hentry).2.1,
      fun source claim hentry => (hback source claim hentry).2.2⟩
  · rintro ⟨hcopied, hcounted, hlimited⟩
    have hlimits (source : CScript) (record : ClaimRecord)
        (hrecord : store.g_claimindex[source]? = some record) :
        WithinLimits env source (countedTotal env tip source) := by
      obtain ⟨claim, hentry, -⟩ := h.copies source record hrecord
      rw [← hcounted source claim hentry]
      exact hlimited source claim hentry
    have hok := h.restart_ok hlimits
    refine ⟨hok, ?_⟩
    rw [ClaimPool.image_eq_iff]
    intro source
    rw [h.restart_entry hok]
    cases hentry : store.g_claims[source]? with
    | none =>
      cases hrecord : store.g_claimindex[source]? with
      | none => rfl
      | some record =>
        obtain ⟨claim, hclaim, -⟩ := h.copies source record hrecord
        rw [hentry] at hclaim
        cases hclaim
    | some claim =>
      obtain ⟨record, hrecord, htime, hseen⟩ := hcopied source claim hentry
      obtain ⟨hcore, htotal, -⟩ := h.reloaded hrecord hentry tip
      rw [hrecord, Option.map_some, Option.map_some, Option.map_some, kept_isValid]
      exact congrArg some (kept_of_core_eq hcore htime hseen
        (htotal.trans (hcounted source claim hentry).symm))

end Restart

end Patchcoin
