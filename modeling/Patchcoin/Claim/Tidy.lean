import Patchcoin.Lib.Run
import Patchcoin.Claim.Store
import Patchcoin.Chain.PoolSteps
import Patchcoin.SmallNet

/-!
# The invariant of the claim pool

The scan of `CheckClaims` compares an output with the target of every claim in the
map and reads the source of the claim that it finds.  It is safe on a map whose
claims are initialised, stored under their source and free of overlaps
(`ClaimPool.Tidy`).  `Claim::Insert` keeps the map tidy, whoever calls it, because
it tests the claim against all claims in the map, and all other writes change
times, totals and cached verdicts only.

The exception is a lookup by `operator[]`.  It puts a claim without a source and
with an empty target into the map where there is none (`tidy_lookups_iff`).
-/

namespace Patchcoin

open Std.ExtTreeMap Claim

variable {env : Env} {pool pool' : ClaimPool} {claim : Claim} {key : CScript}

/-! ## Tidy maps -/

/-- The map that the scan of `CheckClaims` relies on. -/
structure ClaimPool.Tidy (pool : ClaimPool) : Prop where
  init : ∀ (key : CScript) (claim : Claim), pool[key]? = some claim → claim.m_init = true
  source : ∀ (key : CScript) (claim : Claim), pool[key]? = some claim →
    claim.getSource? = some key
  target : ∀ (key : CScript) (claim : Claim), pool[key]? = some claim →
    claim.getTarget.empty = false
  distinct : ∀ (key key' : CScript) (claim claim' : Claim), pool[key]? = some claim →
    pool[key']? = some claim' → claim.getTarget = claim'.getTarget → key = key'
  apart : ∀ (key : CScript) (claim : Claim), pool[key]? = some claim →
    pool.contains claim.getTarget = false

/-- The part of a claim that the invariant is about. -/
def Claim.identity (claim : Claim) : Bool × Option CScript × CScript :=
  (claim.m_init, claim.getSource?, claim.getTarget)

namespace ClaimPool

variable {keys : List CScript}

theorem tidy_empty : Tidy ∅ :=
  ⟨fun _ _ h => absurd h (by simp), fun _ _ h => absurd h (by simp),
    fun _ _ h => absurd h (by simp),
    fun _ _ _ _ h => absurd h (by simp), fun _ _ h => absurd h (by simp)⟩

theorem Tidy.of_image_eq (h : pool.Tidy)
    (himage : pool'.image identity = pool.image identity) : pool'.Tidy := by
  -- every entry has a counterpart with the same identity
  have hentries (key : CScript) (claim : Claim) (hentry : pool'[key]? = some claim) :
      ∃ old, pool[key]? = some old ∧ old.m_init = claim.m_init ∧
        old.getSource? = claim.getSource? ∧ old.getTarget = claim.getTarget := by
    have hpart := image_eq_iff.mp himage key
    rw [hentry, Option.map_some] at hpart
    obtain ⟨old, hold, hidentity⟩ := Option.map_eq_some_iff.mp hpart.symm
    simp only [identity, Prod.mk.injEq] at hidentity
    exact ⟨old, hold, hidentity⟩
  refine ⟨fun key claim hentry => ?_, fun key claim hentry => ?_, fun key claim hentry => ?_,
    fun key key' claim claim' hentry hentry' heq => ?_, fun key claim hentry => ?_⟩
  · obtain ⟨old, hold, hinit, -⟩ := hentries key claim hentry
    exact hinit ▸ h.init key old hold
  · obtain ⟨old, hold, -, hsource, -⟩ := hentries key claim hentry
    exact hsource ▸ h.source key old hold
  · obtain ⟨old, hold, -, -, htarget⟩ := hentries key claim hentry
    exact htarget ▸ h.target key old hold
  · obtain ⟨old, hold, -, -, htarget⟩ := hentries key claim hentry
    obtain ⟨old', hold', -, -, htarget'⟩ := hentries key' claim' hentry'
    exact h.distinct key key' old old' hold hold' (htarget.trans (heq.trans htarget'.symm))
  · obtain ⟨old, hold, -, -, htarget⟩ := hentries key claim hentry
    rw [← @contains_image _ identity, himage, contains_image, ← htarget]
    exact h.apart key old hold

theorem getSource?_of_standalone (h : standalone claim = true) :
    claim.getSource? = some claim.getSource := by
  unfold standalone at h
  unfold getSource getSource?
  cases hbtc : claim.m_is_btc with
  | true => rfl
  | false =>
    cases hsource : claim.source with
    | some source => rfl
    | none => simp [hbtc, hsource, CScript.empty] at h

/-- Inserting a claim that overlaps with none. -/
theorem Tidy.insert (h : pool.Tidy) (hinit : claim.m_init = true)
    (hunique : pool.isUnique claim = true) : Tidy (pool.insert claim.getSource claim) := by
  obtain ⟨halone, hapart⟩ := isUnique_iff.mp hunique
  have hsource := getSource?_of_standalone halone
  have hcases {key : CScript} {entry : Claim}
      (hentry : (pool.insert claim.getSource claim)[key]? = some entry) :
      (key = claim.getSource ∧ entry = claim) ∨ pool[key]? = some entry := by
    rw [getElem?_insert] at hentry
    split_ifs at hentry with heq
    · exact .inl ⟨(Std.LawfulEqCmp.eq_of_compare heq).symm, (Option.some.inj hentry).symm⟩
    · exact .inr hentry
  have halone' : claim.isSourceTarget = false ∧ claim.getTarget.empty = false := by
    unfold standalone at halone
    simp only [Bool.and_eq_true, Bool.not_eq_true'] at halone
    exact ⟨halone.1.1.1.2, halone.2⟩
  refine ⟨fun key entry hentry => ?_, fun key entry hentry => ?_, fun key entry hentry => ?_,
    fun key key' entry entry' hentry hentry' heq => ?_, fun key entry hentry => ?_⟩
  · rcases hcases hentry with ⟨-, rfl⟩ | hold
    · exact hinit
    · exact h.init key entry hold
  · rcases hcases hentry with ⟨rfl, rfl⟩ | hold
    · exact hsource
    · exact h.source key entry hold
  · rcases hcases hentry with ⟨-, rfl⟩ | hold
    · exact halone'.2
    · exact h.target key entry hold
  · rcases hcases hentry with ⟨rfl, rfl⟩ | hold
    · rcases hcases hentry' with ⟨rfl, -⟩ | hold'
      · rfl
      · exact absurd heq.symm (hapart key' entry' hold').2.2.2
    · rcases hcases hentry' with ⟨rfl, rfl⟩ | hold'
      · exact absurd heq (hapart key entry hold).2.2.2
      · exact h.distinct key key' entry entry' hold hold' heq
  · rw [contains_insert, Bool.or_eq_false_iff]
    rcases hcases hentry with ⟨rfl, rfl⟩ | hold
    · refine ⟨?_, ?_⟩
      · rw [beq_eq_false_iff_ne]
        intro heq
        have hsame : entry.getSource = entry.getTarget := Std.LawfulEqCmp.eq_of_compare heq
        rw [isSourceTarget, hsame, beq_self_eq_true] at halone'
        exact absurd halone'.1 (by simp)
      · rw [contains_eq_isSome_getElem?, Option.isSome_eq_false_iff,
          Option.isNone_iff_eq_none]
        by_contra hne
        obtain ⟨other, hother⟩ := Option.ne_none_iff_exists'.mp hne
        exact (hapart _ other hother).2.2.1 rfl
    · refine ⟨?_, h.apart key entry hold⟩
      rw [beq_eq_false_iff_ne]
      intro heq
      exact (hapart key entry hold).2.1 (Std.LawfulEqCmp.eq_of_compare heq).symm

theorem Tidy.merge (h : pool.Tidy) (hinit : claim.m_init = true) : (pool.merge claim).Tidy := by
  unfold ClaimPool.merge
  split_ifs with hunique
  · exact h.insert hinit hunique
  · exact h

/-- What is written through a pointer leaves the identity of the claim alone. -/
theorem Tidy.replace (h : pool.Tidy) (hentry : pool[key]? = some claim) {claim' : Claim}
    (hidentity : claim'.identity = claim.identity) : Tidy (pool.insert key claim') := by
  refine h.of_image_eq ?_
  rw [image_eq_iff]
  intro other
  rw [getElem?_insert]
  split_ifs with heq
  · obtain rfl : key = other := Std.LawfulEqCmp.eq_of_compare heq
    rw [hentry, Option.map_some, Option.map_some, hidentity]
  · rfl

theorem m_init_of_isValid (hvalid : (claim.isValid env).2 = .OK) : claim.m_init = true :=
  m_init_of_checkFields ((isValid_eq_ok_iff claim).mp hvalid).fields

theorem Tidy.insertClaim (h : pool.Tidy) (claim : Claim) : (pool.insertClaim env claim).1.Tidy := by
  unfold ClaimPool.insertClaim
  dsimp only
  split_ifs with hno
  · exact h
  · simp only [Bool.or_eq_true, bne_iff_ne, ne_eq, Bool.not_eq_true', not_or, not_not,
      Bool.not_eq_false] at hno
    obtain ⟨hvalid, hunique⟩ := hno
    have hinit : (claim.isValid env).1.m_init = true := by
      rw [m_init_isValid]
      exact m_init_of_isValid hvalid
    rw [insertIfNew_of_isUnique hunique]
    exact h.insert hinit hunique

/-! ## Lookups -/

variable {texts : Texts}

theorem lookups_of_contains (h : ∀ key ∈ keys, pool.contains key = true) :
    pool.lookups texts keys = pool := by
  unfold lookups
  induction keys with
  | nil => rfl
  | cons key rest ih =>
    have hkeep : pool.insertIfNew key (null texts) = pool := by
      apply ext_getElem?
      intro other
      have hmem : key ∈ pool := contains_iff_mem.mp (h key (.head _))
      rw [getElem?_insertIfNew, if_neg (by simp [hmem])]
    rw [List.foldl_cons, hkeep]
    exact ih fun other hother => h other (.tail _ hother)

/-- What a lookup has put into the map stays there. -/
theorem getElem?_lookups_of_some (h : pool[key]? = some claim) :
    (pool.lookups texts keys)[key]? = some claim := by
  induction keys generalizing pool with
  | nil => exact h
  | cons other rest ih =>
    refine ih ?_
    rw [getElem?_insertIfNew]
    split_ifs with hnew
    · obtain rfl : other = key := Std.LawfulEqCmp.eq_of_compare hnew.1
      exact absurd (mem_iff_isSome_getElem?.mpr (by simp [h])) hnew.2
    · exact h

theorem exists_null_of_lookups {keys : List CScript} (hmem : key ∈ keys)
    (hmiss : pool.contains key = false) :
    (pool.lookups texts keys)[key]? = some (null texts) := by
  induction keys generalizing pool with
  | nil => exact absurd hmem List.not_mem_nil
  | cons other rest ih =>
    have hstep : pool.lookups texts (other :: rest) =
        ClaimPool.lookups texts (pool.insertIfNew other (null texts)) rest := rfl
    rw [hstep]
    by_cases heq : other = key
    · subst heq
      refine getElem?_lookups_of_some ?_
      have hnot : other ∉ pool := by
        rw [← contains_iff_mem, hmiss]
        exact Bool.false_ne_true
      rw [getElem?_insertIfNew, if_pos ⟨Std.ReflCmp.compare_self, hnot⟩]
    · refine ih ((List.mem_cons.mp hmem).resolve_left fun h => heq h.symm) ?_
      rw [contains_insertIfNew, hmiss, Bool.or_false, beq_eq_false_iff_ne]
      exact fun hcompare => heq (Std.LawfulEqCmp.eq_of_compare hcompare)

/-- A lookup keeps the map tidy exactly if it finds all of its keys. -/
theorem tidy_lookups_iff (h : pool.Tidy) :
    (pool.lookups texts keys).Tidy ↔ ∀ key ∈ keys, pool.contains key = true := by
  constructor
  · intro htidy key hmem
    by_contra hmiss
    have hnull := @exists_null_of_lookups pool key texts keys hmem (Bool.eq_false_iff.mpr hmiss)
    exact absurd (htidy.init key _ hnull) (by simp [null])
  · intro hall
    rw [lookups_of_contains hall]
    exact h

end ClaimPool

variable {ancestors : IndexChain} {nTimeTx : UInt32}

/-! ## The other writers -/

theorem ClaimPool.Tidy.of_forgetElectrum (h : pool.Tidy)
    (himage : pool'.image forgetElectrum = pool.image forgetElectrum) : pool'.Tidy :=
  h.of_image_eq (ClaimPool.image_eq_of_image_eq himage fun first second hsame => by
    have hidentity := congrArg identity hsame
    exact hidentity)

theorem ClaimPool.Tidy.merge_checkedClaim {claim : CClaim}
    (hvalid : (checkedClaim env claim).2 = .OK)
    (h : pool.Tidy) : (pool.merge (checkedClaim env claim).1).Tidy := by
  refine h.merge ?_
  rw [checkedClaim, m_init_isValid]
  exact ClaimPool.m_init_of_isValid hvalid

theorem ClaimPool.Tidy.checkClaims {view : CCoinsView} {tx : CTransaction} {vClaim : List CClaim}
    {claims : ClaimState} (h : claims.g_claims.Tidy) :
    (checkClaims env ancestors view tx nTimeTx vClaim claims).state.g_claims.Tidy := by
  refine checkClaims_pool_invariant (P := ClaimPool.Tidy) ?_ ?_ h
  · exact fun htidy himage => htidy.of_forgetElectrum himage
  · exact fun claim _ hvalid htidy => htidy.merge_checkedClaim hvalid

variable {store : ClaimStore} {texts : Texts}

theorem g_claims_addClaim (store : ClaimStore) (claim : Claim) (written : Bool) :
    (store.addClaim claim written).g_claims = store.g_claims := by
  unfold ClaimStore.addClaim
  split_ifs <;> rfl

section

variable (h : store.g_claims.Tidy)
include h

theorem ClaimPool.Tidy.register (now : ℤ) (written : Bool)
    (claim : Claim) : (store.register env now written claim).g_claims.Tidy := by
  unfold ClaimStore.register
  split_ifs
  · exact h
  · dsimp only
    split_ifs
    · rw [g_claims_addClaim]
      exact h.insertClaim _
    · exact h.insertClaim _

theorem ClaimPool.Tidy.processClaim (now : ℤ) (written : Bool)
    (message : CClaim) : (store.processClaim env texts now written message).g_claims.Tidy := by
  unfold ClaimStore.processClaim
  dsimp only
  split_ifs
  any_goals exact h
  let seen : ClaimStore :=
    { store with
      claims_seen := store.claims_seen.insert (ofCClaim env message).getSource now }
  have hseen : seen.g_claims.Tidy := h
  exact hseen.register now written _

theorem ClaimPool.Tidy.queueclaim (now : ℤ) (written : Bool)
    (strAddress strSign strMessage : String) :
    (store.queueclaim env texts now written strAddress strSign strMessage).g_claims.Tidy := by
  unfold ClaimStore.queueclaim
  dsimp only
  split_ifs
  · exact h
  · exact h.register now written _
  · exact h

theorem ClaimPool.Tidy.applyNew (written : Bool) (claim : Claim) :
    (store.applyNew env written claim).1.g_claims.Tidy := by
  unfold ClaimStore.applyNew
  dsimp only
  split_ifs
  · rw [g_claims_addClaim]
    exact h.insertClaim _
  · exact h.insertClaim _

theorem ClaimPool.Tidy.applyKnown (written : Bool) {entry : Claim}
    (hentry : store.g_claims[claim.getSource]? = some entry) :
    (store.applyKnown env written claim entry).1.g_claims.Tidy := by
  have hseen := h.replace hentry
    (show ({ entry with m_seen := true, nTime := claim.nTime } : Claim).identity = entry.identity
      from rfl)
  unfold ClaimStore.applyKnown
  split_ifs
  · exact h
  · dsimp only
    split
    · exact hseen
    · rw [g_claims_addClaim]
      exact hseen

theorem ClaimPool.Tidy.applyClaim (written : Bool)
    (cClaim : CClaimSetClaim) : (store.applyClaim env texts written cClaim).1.g_claims.Tidy := by
  unfold ClaimStore.applyClaim
  split_ifs
  · exact h
  · exact h
  · dsimp only
    split
    · exact h.applyNew written _
    · rename_i entry hentry
      exact h.applyKnown written hentry

theorem ClaimPool.Tidy.applyClaimSet (claims : List (CClaimSetClaim × Bool)) :
    (store.applyClaimSet env texts claims).g_claims.Tidy := by
  induction claims generalizing store with
  | nil => exact h
  | cons first rest ih =>
    obtain ⟨cClaim, written⟩ := first
    rw [ClaimStore.applyClaimSet]
    split_ifs
    · exact ih (h.applyClaim written cClaim)
    · exact h.applyClaim written cClaim

end

theorem ClaimPool.Tidy.loadClaims (h : pool.Tidy) (tip : IndexChain) (records : List ClaimRecord) :
    (ClaimPool.loadClaims env tip records pool).1.Tidy := by
  induction records generalizing pool with
  | nil => exact h
  | cons record rest ih =>
    have hstep : (pool.insertAt env tip (ofRecord env record)).1.Tidy := h.insertClaim _
    rw [ClaimPool.loadClaims]
    split_ifs
    · exact ih hstep
    · exact hstep

theorem ClaimPool.Tidy.recordBlock {loop : TxLoop} {st : ConnectState} (h : st.g_claims.Tidy) :
    (recordBlock env ancestors loop st).g_claims.Tidy := by
  refine List.foldlRecOn (motive := fun st : ConnectState => st.g_claims.Tidy) _ _ h ?_
  intro st hst payout _
  unfold recordClaim
  split
  · exact hst
  · rename_i claim hentry
    exact hst.replace hentry rfl

/-! ## The scan -/

/-- The scan of `CheckClaims` compares no output with an empty script and reads the source
of claims that have one. -/
def ClaimPool.ScanSafe (pool : ClaimPool) : Prop :=
  ∀ (script key : CScript) (claim : Claim), pool.attributed script = some (key, claim) →
    script.empty = false ∧ claim.getSource?.isSome = true

theorem ClaimPool.Tidy.scanSafe (h : pool.Tidy) : pool.ScanSafe := by
  intro script key claim hfound
  obtain ⟨hentry, htarget⟩ := ClaimPool.attributed_some hfound
  refine ⟨htarget ▸ h.target key claim hentry, ?_⟩
  rw [h.source key claim hentry]
  rfl

theorem Claim.identity_isValid (claim : Claim) :
    (claim.isValid env).1.identity = claim.identity := by
  rw [isValid_fst_eq claim]
  rfl

theorem ClaimPool.Tidy.insertBlockClaims (h : pool.Tidy) (nTimeTx : UInt32)
    (vClaim : List CClaim) : (insertBlockClaims env nTimeTx vClaim pool).state.Tidy := by
  refine Outcome.forEach_invariant (P := ClaimPool.Tidy) ?_ h
  intro claim _ pool hpool
  rw [insertBlockClaim_eq]
  split_ifs with hvalid
  · refine hpool.merge ?_
    rw [checkedClaim, m_init_isValid]
    exact ClaimPool.m_init_of_isValid hvalid
  · exact hpool

/-- The map stays tidy at every output that the scan is made for. -/
theorem ClaimPool.Tidy.checkClaimOutputs {loop : OutputLoop} (h : loop.g_claims.Tidy)
    (vout : List CTxOut) :
    (Outcome.forEach (checkClaimOutput env ancestors nTimeTx) vout loop).state.g_claims.Tidy := by
  refine Outcome.forEach_invariant (P := fun loop : OutputLoop => loop.g_claims.Tidy) ?_ h
  intro txout _ loop hloop
  exact hloop.of_image_eq (image_checkClaimOutput identity_isValid txout loop)

/-! ## Runs -/

/-- A call that touches the map. -/
inductive ClaimCall where
  | processClaim (texts : Texts) (now : ℤ) (written : Bool) (message : CClaim)
  | queueclaim (texts : Texts) (now : ℤ) (written : Bool) (strAddress strSign strMessage : String)
  | applyClaimSet (texts : Texts) (claims : List (CClaimSetClaim × Bool))
  | loadClaims (tip : IndexChain)
  | checkClaims (ancestors : IndexChain) (view : CCoinsView) (tx : CTransaction)
      (nTimeTx : UInt32) (vClaim : List CClaim)
      (claims : Std.ExtTreeMap CScript (CScript × ℤ) compare) (queued_claims : List UInt16)
  | recordBlock (ancestors : IndexChain) (loop : TxLoop) (st : ConnectState)
  | blockToJSON (texts : Texts) (block : CBlock)
  | getClaims (texts : Texts) (pindex : CBlockIndex)

/-- What a call leaves in the map, in the index and in the times. -/
def ClaimCall.apply (env : Env) (store : ClaimStore) : ClaimCall → ClaimStore
  | .processClaim texts now written message => store.processClaim env texts now written message
  | .queueclaim texts now written strAddress strSign strMessage =>
    store.queueclaim env texts now written strAddress strSign strMessage
  | .applyClaimSet texts claims => store.applyClaimSet env texts claims
  | .loadClaims tip =>
    { store with
      g_claims := (store.g_claims.loadClaims env tip (store.g_claimindex.toList.map Prod.snd)).1 }
  | .checkClaims ancestors view tx nTimeTx vClaim claims queued_claims =>
    { store with
      g_claims := (Patchcoin.checkClaims env ancestors view tx nTimeTx vClaim
        ⟨store.g_claims, claims, queued_claims⟩).state.g_claims }
  | .recordBlock ancestors loop st =>
    let recorded := Patchcoin.recordBlock env ancestors loop
      { st with g_claims := store.g_claims, g_claimindex := store.g_claimindex }
    { store with g_claims := recorded.g_claims, g_claimindex := recorded.g_claimindex }
  | .blockToJSON texts block => { store with g_claims := store.g_claims.blockToJSON texts block }
  | .getClaims texts pindex => { store with g_claims := store.g_claims.getClaims texts pindex }

/-- The lookups of the call find their keys. -/
def ClaimCall.Finds (store : ClaimStore) : ClaimCall → Prop
  | .blockToJSON _ block => ∀ claim ∈ block.vClaim, store.g_claims.contains claim.source = true
  | .getClaims _ pindex => ∀ source ∈ pindex.nClaims.keys, store.g_claims.contains source = true
  | _ => True

/-- The scans of the call are safe: at each output of the transaction, on the map as the
outputs before it have left it. -/
def ClaimCall.ScansSafely (env : Env) (store : ClaimStore) : ClaimCall → Prop
  | .checkClaims ancestors _ tx nTimeTx vClaim claims queued_claims =>
    ∀ done, done <+: tx.vout →
      (Outcome.forEach (checkClaimOutput env ancestors nTimeTx) done
        { g_claims := (insertBlockClaims env nTimeTx vClaim store.g_claims).state
          claims, queued_claims, outputs := ∅ }).state.g_claims.ScanSafe
  | _ => True

theorem tidy_apply_iff (h : store.g_claims.Tidy) (call : ClaimCall) :
    (call.apply env store).g_claims.Tidy ↔ call.Finds store := by
  cases call with
  | processClaim texts now written message =>
    exact iff_of_true (h.processClaim now written message) trivial
  | queueclaim texts now written strAddress strSign strMessage =>
    exact iff_of_true (h.queueclaim now written strAddress strSign strMessage) trivial
  | applyClaimSet texts claims => exact iff_of_true (h.applyClaimSet claims) trivial
  | loadClaims tip => exact iff_of_true (h.loadClaims tip _) trivial
  | checkClaims ancestors view tx nTimeTx vClaim claims queued_claims =>
    refine iff_of_true ?_ trivial
    have hstart : (ClaimState.mk store.g_claims claims queued_claims).g_claims.Tidy := h
    exact hstart.checkClaims
  | recordBlock ancestors loop st =>
    refine iff_of_true ?_ trivial
    have hstart : ({ st with
      g_claims := store.g_claims, g_claimindex := store.g_claimindex } :
        ConnectState).g_claims.Tidy := h
    exact hstart.recordBlock
  | blockToJSON texts block =>
    refine (ClaimPool.tidy_lookups_iff h).trans ?_
    simp only [List.forall_mem_map, ClaimCall.Finds]
  | getClaims texts pindex => exact ClaimPool.tidy_lookups_iff h

theorem scansSafely_of_tidy (h : store.g_claims.Tidy) (call : ClaimCall) :
    call.ScansSafely env store := by
  cases call with
  | checkClaims ancestors view tx nTimeTx vClaim claims queued_claims =>
    intro done _
    exact (ClaimPool.Tidy.checkClaimOutputs (h.insertBlockClaims nTimeTx vClaim) done).scanSafe
  | _ => trivial

/-- From the empty map: the map is tidy after every call, and every scan is safe, exactly if
no lookup misses. -/
theorem pool_tidy_iff (index : Std.ExtTreeMap CScript ClaimRecord compare)
    (seen : Std.ExtTreeMap CScript ℤ compare) (calls : List ClaimCall) :
    Run.Always (ClaimCall.apply env) (fun store => store.g_claims.Tidy) calls ⟨∅, index, seen⟩ ∧
        Run.Each (ClaimCall.apply env) (fun store call => call.ScansSafely env store) calls
          ⟨∅, index, seen⟩ ↔
      Run.Each (ClaimCall.apply env) (fun store call => call.Finds store) calls
        ⟨∅, index, seen⟩ := by
  have hstart : (ClaimStore.mk ∅ index seen).g_claims.Tidy := ClaimPool.tidy_empty
  have halways : Run.Always (ClaimCall.apply env) (fun store => store.g_claims.Tidy) calls
      ⟨∅, index, seen⟩ ↔
      Run.Each (ClaimCall.apply env) (fun store call => call.Finds store) calls
        ⟨∅, index, seen⟩ :=
    Run.always_iff_each (I := fun _ => True) (fun _ _ _ => trivial)
      (fun _ call _ htidy => tidy_apply_iff htidy call) trivial hstart
  rw [← halways]
  refine and_iff_left_of_imp fun h => ?_
  exact h.each fun store call htidy => scansSafely_of_tidy htidy call

/-! ## A lookup that misses -/

namespace SmallNet

/-- Text formats without any signature. -/
def noTexts : Texts := ⟨fun _ => none, fun _ => none, 1700000500⟩

/-- A node that shows a block with a claim that it has not stored has a claim without a source
in its map afterwards.  Its target matches the empty first output of every coinstake. -/
theorem shown_block_leaves_null_claim :
    let calls := [ClaimCall.blockToJSON noTexts snapshotBlock]
    let pool := (Run.after (ClaimCall.apply (node false false)) calls ⟨∅, ∅, ∅⟩).g_claims
    pool.attributed ⟨[]⟩ = some (payToKeyHash 1, Claim.null noTexts) ∧
      (Claim.null noTexts).m_init = false ∧ (Claim.null noTexts).getSource? = none ∧
      (Claim.null noTexts).getTarget.empty = true := by
  refine ⟨?_, rfl, rfl, rfl⟩
  decide +kernel

end SmallNet

end Patchcoin
