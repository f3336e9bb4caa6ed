import Patchcoin.Claim.Publish

/-!
# How far published claims get

Claims get lost on their way to the other nodes in these ways:

* a claim that comes in the same second as a publication, or with a block, is not newer
  than the last publication, and never will be;
* a set of more than 2500 claims is published, but no node accepts it, and the claims in
  it are not new any more;
* a claim whose texts do not give it back ends the loop, or arrives as another claim;
* a set holds new claims only, so that a node that has missed a set does not get its
  claims from a later one;
* a node that has another claim on the same source keeps that one.

`claims_disseminate_iff` says that these are all the ways.  The argument goes over the
rounds of the loop: a claim is new in at most one round that publishes, since its time is
not ahead of the clock then, and the round moves the time of the last publication to
the clock (`eq_of_carries`).
-/

namespace Patchcoin

open List Publisher

/-! ## Along a run -/

namespace PublishRun

variable {env : Env} {tools : PublishTools} {run : PublishRun env tools} {n m : ℕ}
  {source : CScript} {claim : Claim}
variable {m_claim : CClaim}

/-- What an event does to the node: a call, an idle round, the end of the loop, a new set. -/
theorem state_succ_cases (run : PublishRun env tools) (n : ℕ) : (∃ call, run.event n = .call call ∧
      run.state (n + 1) = { run.state n with node := call.apply env (run.state n).node }) ∨
    (run.event n = .poll ∧ ((run.state n).exited = true ∨ (run.state n).newClaims = []) ∧
      run.state (n + 1) = run.state n) ∨
    ((run.event n = .poll ∧ (run.state n).newClaims ≠ [] ∧ ∀ set, ¬ run.Publishes n set) ∧
      run.state (n + 1) = { run.state n with exited := true }) ∨
    ∃ set, run.Publishes n set ∧ run.state (n + 1) =
      { run.state n with send_claimset := set, last_publish_time := run.clock n } := by
  cases hevent : run.event n with
  | call call =>
    refine .inl ⟨call, rfl, ?_⟩
    rw [state, hevent]
    rfl
  | poll =>
    have hstate : run.state (n + 1) = (run.state n).poll env tools (run.clock n) := by
      rw [state, hevent]
      rfl
    rw [hstate]
    right
    rcases poll_cases env tools (run.clock n) (run.state n) with
      ⟨hidle, -, hpoll⟩ | ⟨-, hnew, hnone, hpoll⟩ | ⟨set, -, -, hpublishes, hpoll⟩
    · exact .inl ⟨rfl, hidle, hpoll⟩
    · refine .inr (.inl ⟨⟨rfl, hnew, fun set hpublishes => ?_⟩, hpoll⟩)
      exact absurd (hnone.symm.trans hpublishes.2) (by simp)
    · exact .inr (.inr ⟨set, ⟨hevent, hpublishes⟩, hpoll⟩)

theorem coherent_state (run : PublishRun env tools) (n : ℕ) :
    (run.state n).node.store.Coherent env := by
  induction n with
  | zero => exact run.coherent
  | succ n ih =>
    rcases run.state_succ_cases n with
      ⟨call, -, hstate⟩ | ⟨-, -, hstate⟩ | ⟨-, hstate⟩ | ⟨set, -, hstate⟩
    all_goals rw [hstate]
    · exact coherent_apply call ih
    all_goals exact ih

theorem getSource_eq (hentry : (run.pool n)[source]? = some claim) : claim.getSource = source :=
  (run.coherent_state n).getSource_eq hentry

theorem pool_succ_of_poll (hevent : run.event n = .poll) : run.pool (n + 1) = run.pool n := by
  unfold pool
  rw [state, hevent, step, node_poll]

theorem keeps_pool (h : n ≤ m) : (run.pool n).Keeps (run.pool m) := by
  induction h with
  | refl => exact .refl _
  | @step m _ ih =>
    refine ih.trans ?_
    unfold pool
    rcases run.state_succ_cases m with
      ⟨call, hevent, hstate⟩ | ⟨-, -, hstate⟩ | ⟨-, hstate⟩ | ⟨set, -, hstate⟩
    all_goals rw [hstate]
    · exact keeps_apply (run.atPublisher m call hevent) _
    all_goals exact .refl _

theorem exited_of_le (h : n ≤ m) (hexited : (run.state n).exited = true) :
    (run.state m).exited = true := by
  induction h with
  | refl => exact hexited
  | @step m _ ih =>
    rcases run.state_succ_cases m with
      ⟨call, -, hstate⟩ | ⟨-, -, hstate⟩ | ⟨-, hstate⟩ | ⟨set, -, hstate⟩
    all_goals rw [hstate]
    all_goals exact ih

/-- The last publication lies between the start of time and now. -/
theorem last_publish_time_bounds (run : PublishRun env tools) (n : ℕ) :
    0 ≤ (run.state n).last_publish_time ∧ (run.state n).last_publish_time ≤ run.clock n := by
  induction n with
  | zero => exact ⟨le_rfl, run.clock_nonneg 0⟩
  | succ n ih =>
    have hclock := run.clock_mono (Nat.le_succ n)
    rcases run.state_succ_cases n with
      ⟨call, -, hstate⟩ | ⟨-, -, hstate⟩ | ⟨-, hstate⟩ | ⟨set, -, hstate⟩
    all_goals rw [hstate]
    case inr.inr.inr => exact ⟨run.clock_nonneg n, hclock⟩
    all_goals exact ⟨ih.1, ih.2.trans hclock⟩

theorem last_publish_time_mono (h : n ≤ m) :
    (run.state n).last_publish_time ≤ (run.state m).last_publish_time := by
  induction h with
  | refl => exact le_rfl
  | @step m _ ih =>
    refine ih.trans ?_
    rcases run.state_succ_cases m with
      ⟨call, -, hstate⟩ | ⟨-, -, hstate⟩ | ⟨-, hstate⟩ | ⟨set, -, hstate⟩
    all_goals rw [hstate]
    exact (run.last_publish_time_bounds m).2

theorem mem_newClaims_iff : claim ∈ (run.state n).newClaims ↔ ∃ source, run.IsNew n source claim :=
  mem_newClaims

/-- A claim that is carried is new, and the set was published with its entry. -/
theorem Carries.isNew (h : run.Carries n source m_claim) :
    (run.state n).exited = false ∧ ∃ claim, run.IsNew n source claim ∧
      claim.m_claim = m_claim := by
  obtain ⟨set, claim, ⟨-, hpublishes⟩, -, hentry, hclaim, hmem, -⟩ := h
  obtain ⟨hexited, hclaims, -⟩ := publishes_eq_some hpublishes
  refine ⟨hexited, claim, ⟨hentry, ?_⟩, hclaim⟩
  -- an entry of the set has the time of the new claim it was made of
  rw [hclaims, mem_map] at hmem
  obtain ⟨claim', hmem', hsame⟩ := hmem
  obtain ⟨source', -, htime⟩ := mem_newClaims_iff.mp
    ((tools.sort_perm _).mem_iff.mp hmem')
  have htimes : claim'.nTime = claim.nTime := congrArg CClaimSetClaim.nTime hsame
  rw [← htimes]
  exact htime

/-- A claim that has a time and is not new will not be new again. -/
theorem IsNew.of_le (h : n ≤ m) {claim' : Claim} (hentry : (run.pool n)[source]? = some claim)
    (hpos : 0 < claim.nTime) (hnew : run.IsNew m source claim') : run.IsNew n source claim := by
  obtain ⟨claim'', hentry', hkept⟩ := keeps_pool h source claim hentry
  obtain rfl : claim'' = claim' := Option.some.inj (hentry'.symm.trans hnew.1)
  refine ⟨hentry, ?_⟩
  rw [← hkept.time_eq hpos]
  exact (last_publish_time_mono h).trans_lt hnew.2

theorem IsNew.pos (hnew : run.IsNew n source claim) : 0 < claim.nTime :=
  (run.last_publish_time_bounds n).1.trans_lt hnew.2

/-! ## Getting into a valid set -/

/-- A round that sees sendable claims publishes a valid set with all of them. -/
theorem carries_of_isNew (hsend : run.SendablePolls) (hevent : run.event n = .poll)
    (hexited : (run.state n).exited = false) (hnew : run.IsNew n source claim) :
    run.Carries n source claim.m_claim := by
  obtain ⟨hcount, hsendable⟩ := hsend n hevent
  have hmem : claim ∈ (run.state n).newClaims := mem_newClaims_iff.mpr ⟨source, hnew⟩
  have hall (claim' : Claim) (hmem' : claim' ∈ (run.state n).newClaims) :
      claim'.Sendable env tools.texts claim'.getSource := by
    obtain ⟨source', hnew'⟩ := mem_newClaims_iff.mp hmem'
    rw [getSource_eq hnew'.1]
    exact hsendable source' claim' hnew'
  obtain ⟨set, hpublishes, hvalid⟩ := publishes_of_sendable (run.coherent_state n)
    run.holdsKey hexited (ne_nil_of_mem hmem) hcount hall
  obtain ⟨-, hclaims, -⟩ := publishes_eq_some hpublishes
  refine ⟨set, claim, ⟨hevent, hpublishes⟩, hvalid, hnew.1, rfl, ?_,
    hsendable source claim hnew⟩
  rw [hclaims]
  exact mem_map_of_mem ((tools.sort_perm _).mem_iff.mpr hmem)

/-- The loop goes on as long as the claims are sendable. -/
theorem not_exited (hsend : run.SendablePolls) (n : ℕ) : (run.state n).exited = false := by
  induction n with
  | zero => rfl
  | succ n ih =>
    rcases run.state_succ_cases n with
      ⟨call, -, hstate⟩ | ⟨-, -, hstate⟩ | ⟨⟨hevent, hnew, hnone⟩, -⟩ | ⟨set, -, hstate⟩
    case inr.inr.inl =>
      obtain ⟨claim, hmem⟩ := exists_mem_of_ne_nil _ hnew
      obtain ⟨source, hisNew⟩ := mem_newClaims_iff.mp hmem
      obtain ⟨set, -, hpublishes, -⟩ := carries_of_isNew hsend hevent ih hisNew
      exact absurd hpublishes (hnone set)
    all_goals rw [hstate]
    all_goals exact ih

/-- A claim stays new until the next round of the loop. -/
theorem isNew_of_no_poll (h : n ≤ m) (hno : ∀ k, n ≤ k → k < m → run.event k ≠ .poll)
    (hnew : run.IsNew n source claim) :
    ∃ claim', run.IsNew m source claim' ∧ claim'.m_claim = claim.m_claim := by
  induction h with
  | refl => exact ⟨claim, hnew, rfl⟩
  | @step m hle ih =>
    obtain ⟨claim', hnew', hclaim⟩ := ih fun k hk hlt => hno k hk (Nat.lt_succ_of_lt hlt)
    obtain ⟨claim'', hentry, hkept⟩ := keeps_pool (Nat.le_succ m) source claim' hnew'.1
    refine ⟨claim'', ⟨hentry, ?_⟩, hkept.m_claim_eq.trans hclaim⟩
    rcases run.state_succ_cases m with
      ⟨call, -, hstate⟩ | ⟨hpoll, -⟩ | ⟨⟨hpoll, -⟩, -⟩ | ⟨set, ⟨hpoll, -⟩, -⟩
    · rw [hstate, hkept.time_eq hnew'.pos]
      exact hnew'.2
    all_goals exact absurd hpoll (hno m hle (Nat.lt_succ_self m))

theorem eventuallyPublished_of_sendablePolls (hbecomes : run.BecomesNew)
    (hsend : run.SendablePolls) : run.EventuallyPublished := by
  classical
  intro i source claim henters
  obtain ⟨n, claim', hle, hnew⟩ := hbecomes i source claim henters
  -- the first round of the loop from there on
  have hfair := run.fair n
  obtain ⟨hlater, hpoll⟩ := Nat.find_spec hfair
  obtain ⟨claim'', hnew', hclaim⟩ := isNew_of_no_poll hlater
    (fun k hk hlt hpoll => Nat.find_min hfair hlt ⟨hk, hpoll⟩) hnew
  have hcarries := carries_of_isNew hsend hpoll (not_exited hsend _) hnew'
  obtain ⟨kept, hentry, hkept⟩ := keeps_pool hle source claim henters.1
  obtain rfl : kept = claim' := Option.some.inj (hentry.symm.trans hnew.1)
  rw [hclaim, hkept.m_claim_eq] at hcarries
  exact ⟨_, hle.trans hlater, hcarries⟩

theorem exists_enters (hentry : (run.pool n)[source]? = some claim) :
    ∃ i claim', i ≤ n ∧ run.Enters i source claim' := by
  induction n generalizing claim with
  | zero => exact ⟨0, claim, le_rfl, hentry, fun m hm => absurd hm (by simp)⟩
  | succ n ih =>
    cases hbefore : (run.pool n)[source]? with
    | none =>
      refine ⟨n + 1, claim, le_rfl, hentry, fun m hm => ?_⟩
      rw [← Nat.succ.inj hm]
      exact hbefore
    | some old =>
      obtain ⟨i, claim', hle, henters⟩ := ih hbefore
      exact ⟨i, claim', Nat.le_succ_of_le hle, henters⟩

/-- A claim that was new when a set was published is not new afterwards. -/
theorem not_isNew_of_publishes (hpast : run.PastTimes) {set : CClaimSet}
    (hpublishes : run.Publishes n set) (hnew : run.IsNew n source claim) (hlt : n < m)
    (claim' : Claim) : ¬ run.IsNew m source claim' := by
  intro hnew'
  rcases run.state_succ_cases n with
    ⟨call, hevent, -⟩ | ⟨-, hidle, -⟩ | ⟨⟨-, -, hnone⟩, -⟩ | ⟨set', -, hstate⟩
  · exact absurd (hevent.symm.trans hpublishes.1) (by simp)
  · rcases hidle with hexited | hnil
    · exact absurd (publishes_eq_some hpublishes.2).1 (by simp [hexited])
    · exact absurd (mem_newClaims_iff.mpr ⟨source, hnew⟩) (by simp [hnil])
  · exact hnone set hpublishes
  · have hentry : (run.pool (n + 1))[source]? = some claim := by
      rw [pool, hstate]
      exact hnew.1
    have hagain := IsNew.of_le hlt hentry hnew.pos hnew'
    have htime := hpast n hpublishes.1 source claim hnew.1
    have hlast : (run.state (n + 1)).last_publish_time = run.clock n := by rw [hstate]
    exact absurd hagain.2 (by rw [hlast]; exact not_lt.mpr htime)

/-- A claim that a round of the loop sees as new can be carried by that round only. -/
theorem eq_of_carries (hpast : run.PastTimes) (hevent : run.event n = .poll)
    (hnew : run.IsNew n source claim) (hcarries : run.Carries m source m_claim) : m = n := by
  obtain ⟨hexited, claim', hnew', -⟩ := hcarries.isNew
  rcases lt_trichotomy m n with hlt | heq | hgt
  · obtain ⟨set, -, hpublishes, -⟩ := hcarries
    exact absurd hnew (not_isNew_of_publishes hpast hpublishes hnew' hlt claim)
  · exact heq
  · -- the loop still runs later on, so that this round has published
    have hrunning (k : ℕ) (hk : k ≤ m) : (run.state k).exited = false := by
      rw [Bool.eq_false_iff]
      intro hstopped
      rw [exited_of_le hk hstopped] at hexited
      cases hexited
    rcases run.state_succ_cases n with
      ⟨call, hcall, -⟩ | ⟨-, hidle, -⟩ | ⟨-, hstate⟩ | ⟨set, hpublishes, -⟩
    · exact absurd (hcall.symm.trans hevent) (by simp)
    · rcases hidle with hstopped | hnil
      · exact absurd (hrunning n hgt.le) (by simp [hstopped])
      · exact absurd (mem_newClaims_iff.mpr ⟨source, hnew⟩) (by simp [hnil])
    · exact absurd (hrunning (n + 1) hgt) (by simp [hstate])
    · exact absurd hnew' (not_isNew_of_publishes hpast hpublishes hnew hgt claim')

theorem becomesNew_of_eventuallyPublished (h : run.EventuallyPublished) : run.BecomesNew := by
  intro i source claim henters
  obtain ⟨n, hle, hcarries⟩ := h i source claim henters
  obtain ⟨-, claim', hnew, -⟩ := hcarries.isNew
  exact ⟨n, claim', hle, hnew⟩

theorem sendablePolls_of_eventuallyPublished (hpast : run.PastTimes)
    (h : run.EventuallyPublished) : run.SendablePolls := by
  intro n hevent
  have hcarried (source : CScript) (claim : Claim) (hnew : run.IsNew n source claim) :
      ∃ m_claim, run.Carries n source m_claim := by
    obtain ⟨i, entered, -, henters⟩ := exists_enters hnew.1
    obtain ⟨m, -, hcarries⟩ := h i source entered henters
    obtain rfl := eq_of_carries hpast hevent hnew hcarries
    exact ⟨_, hcarries⟩
  constructor
  · cases hclaims : (run.state n).newClaims with
    | nil => exact Nat.zero_le _
    | cons claim rest =>
      obtain ⟨source, hnew⟩ := mem_newClaims_iff.mp (hclaims ▸ mem_cons_self)
      obtain ⟨m_claim, set, -, ⟨-, hpublishes⟩, hvalid, -⟩ := hcarried source claim hnew
      obtain ⟨-, hset, hchecked⟩ := publishes_eq_some hpublishes
      have hcount := ((CClaimSet.isValid_iff hchecked).mp hvalid).2.1
      rw [hset, length_map, (tools.sort_perm _).length_eq, hclaims] at hcount
      exact hcount
  · intro source claim hnew
    obtain ⟨m_claim, set, claim', -, -, hentry, -, -, hsendable⟩ := hcarried source claim hnew
    obtain rfl : claim' = claim := Option.some.inj (hentry.symm.trans hnew.1)
    exact hsendable

/-! ## What a node has from a set -/

section Receiver

variable {set : CClaimSet} {options : Options} {texts : Texts} {receiver : SetReceiver}
  {written : CClaimSetClaim → Bool}

/-- Every node that accepts the entry of a new claim reads the scripts of the claim. -/
theorem scripts_of_isNew (hsend : run.SendablePolls) (hevent : run.event n = .poll)
    (hnew : run.IsNew n source claim)
    (hvalid : (((claim.setClaim env tools.texts).toClaim (env.withOptions options)).isValid
      (env.withOptions options)).2 = .OK)
    (hvalid' : (((claim.setClaim env tools.texts).rebuilt (env.withOptions options)
      texts).isValid (env.withOptions options)).2 = .OK) :
    ((claim.setClaim env tools.texts).rebuilt (env.withOptions options) texts).getSource =
        source ∧
      ((claim.setClaim env tools.texts).rebuilt (env.withOptions options) texts).getTarget =
        claim.getTarget := by
  have hsound := (run.coherent_state n).sound source claim hnew.1
  have hinit := (run.coherent_state n).tidy.init source claim hnew.1
  exact scripts_rebuilt_setClaim hsound.1 hinit (getSource_eq hnew.1)
    ((hsend n hevent).2 source claim hnew) hvalid hvalid'

/-- The entries of a set are those of the new claims. -/
theorem mem_claims_iff (hpublishes : run.Publishes n set) {cClaim : CClaimSetClaim} :
    cClaim ∈ set.claims ↔
      ∃ source claim, run.IsNew n source claim ∧ claim.setClaim env tools.texts = cClaim := by
  obtain ⟨-, hclaims, -⟩ := publishes_eq_some hpublishes.2
  rw [hclaims, mem_map]
  constructor
  · rintro ⟨claim, hmem, hsame⟩
    obtain ⟨source, hnew⟩ := mem_newClaims_iff.mp ((tools.sort_perm _).mem_iff.mp hmem)
    exact ⟨source, claim, hnew, hsame⟩
  · rintro ⟨source, claim, hnew, hsame⟩
    exact ⟨claim, (tools.sort_perm _).mem_iff.mpr (mem_newClaims_iff.mpr ⟨source, hnew⟩), hsame⟩

/-- After a whole set a node has a claim of the publisher exactly if it had it before, or had
none on the source and the claim is in this set. -/
theorem targetAt_processClaimSet_iff (hsend : run.SendablePolls) (hpublishes : run.Publishes n set)
    (happlies : receiver.Applies (env.withOptions options) texts written set)
    (hentry : (run.pool n)[source]? = some claim) :
    (receiver.processClaimSet (env.withOptions options) texts written
        set).store.g_claims.targetAt source = some claim.getTarget ↔
      receiver.store.g_claims.targetAt source = some claim.getTarget ∨
        receiver.store.g_claims.targetAt source = none ∧ run.IsNew n source claim := by
  obtain ⟨hvalids, htargets⟩ := targetAt_applyClaimSet happlies.2
  rw [store_processClaimSet happlies.1, htargets]
  cases hbefore : receiver.store.g_claims.targetAt source with
  | some target => simp
  | none =>
    rw [Option.none_or]
    simp only [reduceCtorEq, true_and, false_or]
    -- an entry that the node files under the source is that of the claim
    have hfiled (entry : CClaimSetClaim × Bool) (hmem : entry ∈ set.writes written)
        (hsource : (entry.1.rebuilt (env.withOptions options) texts).getSource = source) :
        run.IsNew n source claim ∧
          (entry.1.rebuilt (env.withOptions options) texts).getTarget =
            claim.getTarget := by
      obtain ⟨hvalid, hvalid'⟩ := hvalids entry hmem
      obtain ⟨cClaim, hcClaim, rfl⟩ := mem_map.mp hmem
      obtain ⟨source', claim', hnew, rfl⟩ := (mem_claims_iff hpublishes).mp hcClaim
      obtain ⟨hsource', htarget⟩ := scripts_of_isNew hsend hpublishes.1 hnew hvalid hvalid'
      obtain rfl : source' = source := hsource'.symm.trans hsource
      obtain rfl : claim' = claim := Option.some.inj (hnew.1.symm.trans hentry)
      exact ⟨hnew, htarget⟩
    rw [Option.map_eq_some_iff]
    constructor
    · rintro ⟨entry, hfind, -⟩
      have hsource := find?_some hfind
      exact (hfiled entry (mem_of_find?_eq_some hfind) (beq_iff_eq.mp hsource)).1
    · intro hnew
      -- the claim has an entry in the set, and the node files it under the source
      have hmem := (mem_claims_iff hpublishes).mpr ⟨source, claim, hnew, rfl⟩
      have hwrite : (claim.setClaim env tools.texts,
          written (claim.setClaim env tools.texts)) ∈ set.writes written :=
        mem_map_of_mem hmem
      obtain ⟨hvalid, hvalid'⟩ := hvalids _ hwrite
      obtain ⟨hsource, -⟩ := scripts_of_isNew hsend hpublishes.1 hnew hvalid hvalid'
      have hfound : ((set.writes written).find? fun entry =>
          (entry.1.rebuilt (env.withOptions options) texts).getSource ==
            source).isSome = true :=
        find?_isSome.mpr ⟨_, hwrite, beq_iff_eq.mpr hsource⟩
      obtain ⟨entry, hfind⟩ := Option.isSome_iff_exists.mp hfound
      have hsource' := find?_some hfind
      exact ⟨entry, hfind,
        (hfiled entry (mem_of_find?_eq_some hfind) (beq_iff_eq.mp hsource')).2⟩

end Receiver

/-- How far claims get.

Every claim gets into a valid set if it is at some time newer than the last publication, and
no round of the loop sees too many claims or one that cannot be put together again.  If no
claim is ahead of the clock, these conditions are also necessary.

A node that has applied a set then has every outstanding claim exactly if each of them is in
this set, or was in its map before, and it had no other claim on the source. -/
theorem claims_disseminate_iff (run : PublishRun env tools) :
    (run.BecomesNew → run.SendablePolls → run.EventuallyPublished) ∧
    (run.PastTimes → run.EventuallyPublished → run.BecomesNew ∧ run.SendablePolls) ∧
    (run.SendablePolls → ∀ (n : ℕ) (set : CClaimSet), run.Publishes n set →
      ∀ (options : Options) (texts : Texts) (receiver : SetReceiver)
        (written : CClaimSetClaim → Bool),
        receiver.Applies (env.withOptions options) texts written set →
        (run.HeldBy n (receiver.processClaimSet (env.withOptions options) texts written
            set).store.g_claims ↔
          ∀ source claim, run.Outstanding n source claim →
            receiver.store.g_claims.targetAt source = some claim.getTarget ∨
              receiver.store.g_claims.targetAt source = none ∧ run.IsNew n source claim)) := by
  refine ⟨eventuallyPublished_of_sendablePolls, fun hpast hpublished => ?_,
    fun hsend n set hpublishes options texts receiver written happlies => ?_⟩
  · exact ⟨becomesNew_of_eventuallyPublished hpublished,
      sendablePolls_of_eventuallyPublished hpast hpublished⟩
  · refine forall_congr' fun source => forall_congr' fun claim => ?_
    exact forall_congr' fun houtstanding =>
      targetAt_processClaimSet_iff hsend hpublishes happlies houtstanding.1

end PublishRun

/-! ## On the small network -/

namespace SmallNet

variable {source : CScript} {claim : Claim}

/-- The key hash that an address stands for. -/
def decodeAddress (kind text : String) : CTxDestination :=
  ((([1, 2, 3, 4, 5, 6] : List Uint160).map CTxDestination.PKHash).find? fun dest =>
    address kind dest == text).getD .CNoDestination

/-- The node with the genesis key on a network whose addresses can be read, with three sources
in the snapshot. -/
def claimNet : Env :=
  { node true false with
    host := { host with
      decodeDestination := decodeAddress "p"
      decodeDestination_BTC := decodeAddress "b" }
    snapshot := { snapshot with
      scriptPubKeys := Std.ExtTreeMap.ofList [(payToKeyHash 1, 1000 * COIN),
        (payToKeyHash 2, 1000 * COIN), (payToKeyHash 3, 1000 * COIN)] } }

/-- A node without the genesis key. -/
def otherOptions : Options := (node false false).options

/-- Every signature is read as the same one. -/
def sameSignature : Texts := ⟨fun _ => some (List.replicate 65 1), fun _ => none, 1700000500⟩

def publishTools : PublishTools where
  texts := sameSignature
  sign _ := some [1]
  sort := List.insertionSort fun first second => second.nTime ≤ first.nTime
  sort_perm claims := List.perm_insertionSort _ claims

theorem signatureAccepted_one (hash : Uint256) :
    CClaimSet.signatureAccepted claimNet hash [1] = true := by
  have hkey : solver claimNet.params.genesisPubKey = (.PUBKEY, [pubKey 7]) := by decide +kernel
  unfold CClaimSet.signatureAccepted
  rw [hkey]
  rfl

/-- A message with a claim on one of the sources. -/
def claimMessage (n : UInt8) (now : ℤ) : PublishEvent :=
  .call (.processClaim sameSignature now true (mkClaim (payToKeyHash n) (payToKeyHash (n + 3))))

/-- A claim comes in the second of a publication, and another one afterwards. -/
def lateEvent : ℕ → PublishEvent
  | 0 => claimMessage 1 1700000500
  | 2 => claimMessage 2 1700000500
  | 3 => claimMessage 3 1700000501
  | _ => .poll

def lateRun : PublishRun claimNet publishTools where
  start := .fresh [] ⟨fun _ => none, 0⟩ []
  coherent := coherent_fresh _ _ _
  clock n := if n ≤ 2 then 1700000500 else 1700000501
  clock_mono n m h := by
    show (if n ≤ 2 then (1700000500 : ℤ) else 1700000501) ≤
      if m ≤ 2 then 1700000500 else 1700000501
    split_ifs <;> omega
  clock_nonneg n := by split_ifs <;> decide
  event := lateEvent
  atPublisher n call h := by
    unfold lateEvent at h
    split at h
    all_goals first | (cases h; trivial) | cases h
  fair n := ⟨n + 4, by omega, rfl⟩
  holdsKey hash := ⟨[1], rfl, signatureAccepted_one hash⟩

/-- A node without claims that has asked for the set. -/
def newcomer (set : CClaimSet) : SetReceiver :=
  ⟨⟨∅, ∅, ∅⟩, { nTime := 0 }, set.getHash claimNet, 0, 0⟩

/-- The set that a round of the loop publishes. -/
def publishedAt (run : PublishRun claimNet publishTools) (n : ℕ) : CClaimSet :=
  ((run.state n).publishes claimNet publishTools (run.clock n)).getD { nTime := 0 }

/-- The first claim of a run. -/
def firstClaim (run : PublishRun claimNet publishTools) : Claim :=
  ((run.pool 1)[payToKeyHash 1]?).getD (Claim.null sameSignature)

/-- A claim that comes in the second of a publication is never published, and a node that has
only seen the second set does not have the claim of the first one. -/
theorem late_claim_is_lost : ¬ lateRun.EventuallyPublished ∧
      lateRun.Publishes 4 (publishedAt lateRun 4) ∧
      (newcomer (publishedAt lateRun 4)).Applies (claimNet.withOptions otherOptions)
        sameSignature (fun _ => true) (publishedAt lateRun 4) ∧
      ¬ lateRun.HeldBy 4 ((newcomer (publishedAt lateRun 4)).processClaimSet
        (claimNet.withOptions otherOptions) sameSignature (fun _ => true)
        (publishedAt lateRun 4)).store.g_claims := by
  refine ⟨fun hpublished => ?_, ⟨rfl, by decide +kernel⟩, ⟨by decide +kernel, by decide +kernel⟩,
    fun hheld => ?_⟩
  · have hlate : ((lateRun.pool 3)[payToKeyHash 2]?).map Claim.nTime = some 1700000500 := by
      decide +kernel
    obtain ⟨claim, hentry, htime⟩ := Option.map_eq_some_iff.mp hlate
    have henters : lateRun.Enters 3 (payToKeyHash 2) claim := by
      refine ⟨hentry, fun m hm => ?_⟩
      obtain rfl : 2 = m := Nat.succ.inj hm
      decide +kernel
    obtain ⟨n, claim', hle, hnew⟩ :=
      PublishRun.becomesNew_of_eventuallyPublished hpublished 3 (payToKeyHash 2) claim henters
    have hagain := PublishRun.IsNew.of_le hle hentry (by rw [htime]; decide) hnew
    have hlast : (lateRun.state 3).last_publish_time = 1700000500 := by decide +kernel
    exact absurd hagain.2 (by rw [hlast, htime]; decide)
  · have hcarries : lateRun.Carries 1 (payToKeyHash 1) (firstClaim lateRun).m_claim :=
      ⟨publishedAt lateRun 1, firstClaim lateRun, ⟨rfl, by decide +kernel⟩, by decide +kernel,
        by decide +kernel, rfl, by decide +kernel,
        ⟨by decide +kernel, by decide +kernel, by decide +kernel⟩⟩
    have houtstanding : lateRun.Outstanding 4 (payToKeyHash 1) (firstClaim lateRun) :=
      ⟨by decide +kernel, by decide +kernel, 1, by decide, hcarries⟩
    exact absurd (hheld _ _ houtstanding) (by decide +kernel)

/-- A claim comes, and nothing else. -/
def promptEvent : ℕ → PublishEvent
  | 0 => claimMessage 1 1700000500
  | _ => .poll

def promptRun : PublishRun claimNet publishTools where
  start := .fresh [] ⟨fun _ => none, 0⟩ []
  coherent := coherent_fresh _ _ _
  clock _ := 1700000500
  clock_mono _ _ _ := le_rfl
  clock_nonneg _ := by decide
  event := promptEvent
  atPublisher n call h := by
    unfold promptEvent at h
    split at h
    all_goals first | (cases h; trivial) | cases h
  fair n := ⟨n + 1, by omega, rfl⟩
  holdsKey hash := ⟨[1], rfl, signatureAccepted_one hash⟩

theorem entries_promptRun : (promptRun.pool 1).toList =
    [(payToKeyHash 1, firstClaim promptRun)] := by decide +kernel

theorem pool_promptRun_one (hentry : (promptRun.pool 1)[source]? = some claim) :
    source = payToKeyHash 1 ∧ claim = firstClaim promptRun := by
  have hmem := Std.ExtTreeMap.mem_toList_iff_getElem?_eq_some.mpr hentry
  rw [entries_promptRun, mem_singleton, Prod.mk.injEq] at hmem
  exact hmem

/-- Nothing happens after the publication. -/
theorem state_promptRun (n : ℕ) : promptRun.state (n + 2) = promptRun.state 2 := by
  induction n with
  | zero => rfl
  | succ n ih =>
    have hnone : (promptRun.state 2).newClaims = [] := by decide +kernel
    have hevent : promptRun.event (n + 2) = .poll := rfl
    rcases promptRun.state_succ_cases (n + 2) with
      ⟨call, hcall, -⟩ | ⟨-, -, hstate⟩ | ⟨⟨-, hnew, -⟩, -⟩ | ⟨set, ⟨-, hpublishes⟩, -⟩
    · exact absurd (hcall.symm.trans hevent) (by simp)
    · exact hstate.trans ih
    · rw [ih] at hnew
      exact absurd hnone hnew
    · rw [ih, publishes, hnone] at hpublishes
      simp at hpublishes

theorem sendablePolls_promptRun : promptRun.SendablePolls := by
  intro n hevent
  match n with
  | 0 => cases hevent
  | 1 =>
    refine ⟨by decide +kernel, fun source claim hnew => ?_⟩
    obtain ⟨hsource, hclaim⟩ := pool_promptRun_one hnew.1
    rw [hsource, hclaim]
    exact ⟨by decide +kernel, by decide +kernel, by decide +kernel⟩
  | n + 2 =>
    have hnone : (promptRun.state 2).newClaims = [] := by decide +kernel
    refine ⟨?_, fun source claim hnew => ?_⟩
    · rw [state_promptRun, hnone]
      exact Nat.zero_le _
    · have hmem := PublishRun.mem_newClaims_iff.mpr ⟨source, hnew⟩
      rw [state_promptRun, hnone] at hmem
      exact absurd hmem not_mem_nil

theorem isNew_promptRun (hentry : (promptRun.pool 1)[source]? = some claim) :
    promptRun.IsNew 1 source claim := by
  refine ⟨hentry, ?_⟩
  rw [(pool_promptRun_one hentry).2]
  decide +kernel

/-- The map does not change after the claim has come. -/
theorem pool_promptRun (n : ℕ) : promptRun.pool (n + 1) = promptRun.pool 1 := by
  induction n with
  | zero => rfl
  | succ n ih => exact (PublishRun.pool_succ_of_poll rfl).trans ih

theorem becomesNew_promptRun : promptRun.BecomesNew := by
  intro i source claim henters
  obtain ⟨hentry, habsent⟩ := henters
  cases i with
  | zero =>
    have hempty : promptRun.pool 0 = ∅ := rfl
    rw [hempty] at hentry
    cases hentry
  | succ i =>
    cases i with
    | zero => exact ⟨1, claim, le_rfl, isNew_promptRun hentry⟩
    | succ i =>
      have hbefore := habsent (i + 1) rfl
      rw [pool_promptRun] at hentry hbefore
      exact absurd (hbefore.symm.trans hentry) (by simp)

/-- The claim is published, and a node that applies the set has it. -/
theorem prompt_claim_is_published : promptRun.EventuallyPublished ∧
      promptRun.HeldBy 1 ((newcomer (publishedAt promptRun 1)).processClaimSet
        (claimNet.withOptions otherOptions) sameSignature (fun _ => true)
        (publishedAt promptRun 1)).store.g_claims := by
  refine ⟨(PublishRun.claims_disseminate_iff promptRun).1 becomesNew_promptRun
    sendablePolls_promptRun, ?_⟩
  have hpublishes : promptRun.Publishes 1 (publishedAt promptRun 1) := ⟨rfl, by decide +kernel⟩
  have happlies : (newcomer (publishedAt promptRun 1)).Applies
      (claimNet.withOptions otherOptions) sameSignature (fun _ => true)
      (publishedAt promptRun 1) := ⟨by decide +kernel, by decide +kernel⟩
  have hheld := (PublishRun.claims_disseminate_iff promptRun).2.2 sendablePolls_promptRun 1 _
    hpublishes otherOptions sameSignature _ _ happlies
  refine hheld.mpr fun source claim houtstanding => ?_
  obtain ⟨hentry, -⟩ := houtstanding
  have hnone : (newcomer (publishedAt promptRun 1)).store.g_claims.targetAt source = none := by
    rw [newcomer, ClaimPool.targetAt, Std.ExtTreeMap.getElem?_empty, Option.map_none]
  exact .inr ⟨hnone, isNew_promptRun hentry⟩

end SmallNet

end Patchcoin
