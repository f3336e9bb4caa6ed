import Mathlib.Data.List.Sort
import Patchcoin.Chain.Restart
import Patchcoin.Claim.ClaimSet

/-!
# Publishing claims

The thread `ThreadCsPub` of the node with the genesis key looks at the map once a
second.  The claims that are newer than the last publication are signed and become
the set that is sent, in place of the one before.  If one of them cannot be put
together from its texts, or the wallet does not sign, the thread ends.

A run of the node is an infinite sequence of events, calls that change the claims and
rounds of the loop (`PublishRun`).  This module has the run, what it should achieve,
and what a single event does: no call at this node removes a claim or changes its
texts (`keeps_apply`), and a round is idle, ends the loop or publishes a set
(`poll_cases`).
-/

namespace Patchcoin

open Std.ExtTreeMap Claim

/-! ## The thread -/

/-- What the thread uses besides the map: the text formats, the wallet, and `std::sort`, which
may return claims with the same time in any order. -/
structure PublishTools where
  texts : Texts
  sign : Uint256 → Option (List UInt8)
  sort : List Claim → List Claim
  sort_perm : ∀ claims, (sort claims).Perm claims

/-- The node with the genesis key and the variables of its thread. -/
structure Publisher where
  node : ClaimNode
  send_claimset : CClaimSet
  last_publish_time : ℤ
  /-- The thread has left its loop. -/
  exited : Bool

namespace Publisher

variable (env : Env) (tools : PublishTools)

def newClaims (publisher : Publisher) : List Claim :=
  (publisher.node.g_claims.toList.map Prod.snd).filter fun claim =>
    decide (publisher.last_publish_time < claim.nTime)

/-- `SignClaimSet`. -/
def signClaimSet (claimSet : CClaimSet) : Option CClaimSet :=
  (tools.sign (claimSet.getHash env)).map fun vchSig => { claimSet with vchSig }

/-- `PublishClaimset`: `none` where it returns false. -/
def publishClaimset (sendThis : CClaimSet) (publisher : Publisher) : Option Publisher :=
  if publisher.node.g_claims.isEmpty then some publisher
  else (signClaimSet env tools sendThis).map fun signed =>
    { publisher with send_claimset := signed }

/-- One round of the loop. -/
def poll (now : ℤ) (publisher : Publisher) : Publisher :=
  if publisher.exited then publisher
  else if publisher.node.g_claims.isEmpty then publisher
  else if publisher.newClaims.isEmpty then publisher
  else
    match ({ nTime := now } : CClaimSet).addNewClaims env tools.texts
        (tools.sort publisher.newClaims) with
    | none => { publisher with exited := true }
    | some sendThis =>
      match publisher.publishClaimset env tools sendThis with
      | none => { publisher with exited := true }
      | some published => { published with last_publish_time := now }

/-- The set that a round of the loop publishes. -/
def publishes (now : ℤ) (publisher : Publisher) : Option CClaimSet :=
  if publisher.exited || publisher.newClaims.isEmpty then none
  else (({ nTime := now } : CClaimSet).addNewClaims env tools.texts
    (tools.sort publisher.newClaims)).bind (signClaimSet env tools)

end Publisher

/-! ## Runs -/

/-- What happens at the node: a call, or a round of the loop. -/
inductive PublishEvent where
  | call (call : NodeCall)
  | poll

/-- The node ignores the claim sets of others, and the thread does not survive a restart. -/
def NodeCall.AtPublisher : NodeCall → Prop
  | .applyClaimSet _ _ => False
  | .restart => False
  | _ => True

def Publisher.step (env : Env) (tools : PublishTools) (now : ℤ) (publisher : Publisher) :
    PublishEvent → Publisher
  | .call call => { publisher with node := call.apply env publisher.node }
  | .poll => publisher.poll env tools now

/-- A run of the node: calls in any order, and a round of the loop again and again.  The clock
never goes back, and the wallet has the genesis key. -/
structure PublishRun (env : Env) (tools : PublishTools) where
  start : ClaimNode
  coherent : start.store.Coherent env
  clock : ℕ → ℤ
  clock_mono : Monotone clock
  clock_nonneg : ∀ n, 0 ≤ clock n
  event : ℕ → PublishEvent
  atPublisher : ∀ n call, event n = .call call → call.AtPublisher
  fair : ∀ n, ∃ m, n ≤ m ∧ event m = .poll
  holdsKey : ∀ hash, ∃ vchSig, tools.sign hash = some vchSig ∧
    CClaimSet.signatureAccepted env hash vchSig = true

namespace PublishRun

variable {env : Env} {tools : PublishTools} (run : PublishRun env tools)

/-- The node after a number of events. -/
def state : ℕ → Publisher
  | 0 => ⟨run.start, { nTime := run.clock 0 }, 0, false⟩
  | n + 1 => (state n).step env tools (run.clock n) (run.event n)

/-- The claims of the node. -/
def pool (n : ℕ) : ClaimPool := (run.state n).node.g_claims

/-- The claim is in the map, and was not there before the last event. -/
def Enters (n : ℕ) (source : CScript) (claim : Claim) : Prop :=
  (run.pool n)[source]? = some claim ∧ ∀ m, n = m + 1 → (run.pool m)[source]? = none

/-- The claim on the source is newer than the last publication. -/
def IsNew (n : ℕ) (source : CScript) (claim : Claim) : Prop :=
  (run.pool n)[source]? = some claim ∧ (run.state n).last_publish_time < claim.nTime

/-- The event is a round of the loop that publishes the set. -/
def Publishes (n : ℕ) (set : CClaimSet) : Prop :=
  run.event n = .poll ∧ (run.state n).publishes env tools (run.clock n) = some set

/-- The event publishes a valid set, and in it the claim on the source, under the same source and
target. -/
def Carries (n : ℕ) (source : CScript) (m_claim : CClaim) : Prop :=
  ∃ (set : CClaimSet) (claim : Claim), run.Publishes n set ∧ set.isValid env = true ∧
    (run.pool n)[source]? = some claim ∧ claim.m_claim = m_claim ∧
    claim.setClaim env tools.texts ∈ set.claims ∧ claim.Sendable env tools.texts source

/-- Every claim gets into a valid set. -/
def EventuallyPublished : Prop :=
  ∀ i source claim, run.Enters i source claim → ∃ n, i ≤ n ∧ run.Carries n source claim.m_claim

/-- Every claim is at some time newer than the last publication. -/
def BecomesNew : Prop :=
  ∀ i source claim, run.Enters i source claim → ∃ n claim', i ≤ n ∧ run.IsNew n source claim'

/-- The new claims in a round of the loop fit into a set and can be put together again. -/
def SendablePolls : Prop :=
  ∀ n, run.event n = .poll → (run.state n).newClaims.length ≤ MAX_CLAIMS_COUNT ∧
    ∀ source claim, run.IsNew n source claim → claim.Sendable env tools.texts source

/-- No claim that a round of the loop sees is ahead of the clock. -/
def PastTimes : Prop :=
  ∀ n, run.event n = .poll → ∀ (source : CScript) (claim : Claim),
    (run.pool n)[source]? = some claim → claim.nTime ≤ run.clock n

/-- The claim is not paid in full, and was published before the next event. -/
def Outstanding (n : ℕ) (source : CScript) (claim : Claim) : Prop :=
  (run.pool n)[source]? = some claim ∧ claim.nTotalReceived < claim.getEligible env ∧
    ∃ m, m ≤ n ∧ run.Carries m source claim.m_claim

/-- A map has every claim that is outstanding. -/
def HeldBy (n : ℕ) (pool : ClaimPool) : Prop :=
  ∀ source claim, run.Outstanding n source claim → pool.targetAt source = some claim.getTarget

end PublishRun

/-! ## Claims stay in the map -/

/-- What no call at the publisher changes about a claim.  Its time is set when it is paid, if
it has none. -/
structure Claim.Kept (claim claim' : Claim) : Prop where
  core_eq : claim'.core = claim.core
  time : claim'.nTime = claim.nTime ∨ claim.nTime = 0 ∧ 0 ≤ claim'.nTime

theorem Claim.Kept.refl (claim : Claim) : claim.Kept claim := ⟨rfl, .inl rfl⟩

theorem Claim.Kept.trans {first second third : Claim} (h : first.Kept second)
    (h' : second.Kept third) : first.Kept third := by
  refine ⟨h'.core_eq.trans h.core_eq, ?_⟩
  rcases h.time, h'.time with ⟨hsame | ⟨hzero, hpos⟩, hsame' | ⟨hzero', hpos'⟩⟩
  · exact .inl (hsame'.trans hsame)
  · exact .inr ⟨hsame.symm.trans hzero', hpos'⟩
  · exact .inr ⟨hzero, hsame'.symm ▸ hpos⟩
  · exact .inr ⟨hzero, hpos'⟩

theorem Claim.Kept.m_claim_eq {claim claim' : Claim} (h : claim.Kept claim') :
    claim'.m_claim = claim.m_claim := by
  have hcore := congrArg m_claim h.core_eq
  exact hcore

/-- A claim with a time keeps it. -/
theorem Claim.Kept.time_eq {claim claim' : Claim} (h : claim.Kept claim') (hpos : 0 < claim.nTime) :
    claim'.nTime = claim.nTime := by
  rcases h.time with hsame | ⟨hzero, -⟩
  · exact hsame
  · exact absurd hzero hpos.ne'

/-- Every claim of the map is still in the other one. -/
def ClaimPool.Keeps (pool pool' : ClaimPool) : Prop :=
  ∀ (source : CScript) (claim : Claim), pool[source]? = some claim →
    ∃ claim' : Claim, pool'[source]? = some claim' ∧ claim.Kept claim'

namespace ClaimPool

variable {pool pool' pool'' : ClaimPool} {source : CScript} {claim : Claim}

theorem Keeps.refl (pool : ClaimPool) : pool.Keeps pool :=
  fun _ claim hentry => ⟨claim, hentry, .refl claim⟩

theorem Keeps.trans (h : pool.Keeps pool') (h' : pool'.Keeps pool'') : pool.Keeps pool'' := by
  intro source claim hentry
  obtain ⟨claim', hentry', hkept⟩ := h source claim hentry
  obtain ⟨claim'', hentry'', hkept'⟩ := h' source claim' hentry'
  exact ⟨claim'', hentry'', hkept.trans hkept'⟩

/-- A claim may be put where there is none, or where one was that it keeps. -/
theorem Keeps.insert (h : ∀ old, pool[source]? = some old → old.Kept claim) :
    pool.Keeps (pool.insert source claim) := by
  intro key old hentry
  rw [getElem?_insert]
  split_ifs with heq
  · obtain rfl : source = key := Std.LawfulEqCmp.eq_of_compare heq
    exact ⟨claim, rfl, h old hentry⟩
  · exact ⟨old, hentry, .refl old⟩

theorem Keeps.insert_new (hunique : pool.isUnique claim = true) {claim' : Claim} :
    pool.Keeps (pool.insert claim.getSource claim') := by
  refine .insert fun old hold => ?_
  rw [ClaimPool.getElem?_of_isUnique hunique] at hold
  cases hold

end ClaimPool

section Calls

variable {env : Env} {written : Bool} {store store' : ClaimStore}

theorem ClaimStore.Learns.keeps (h : store.Learns env written store') :
    store.g_claims.Keeps store'.g_claims := by
  cases h with
  | nothing hclaims hindex =>
    rw [hclaims]
    exact .refl _
  | claim claim hbuilt htotal hvalid hunique hclaims hindex =>
    rw [hclaims]
    exact .insert_new hunique

theorem keeps_recordClaim (ancestors : IndexChain) (st : ConnectState) (payout : CScript × ℤ) :
    st.g_claims.Keeps (recordClaim env ancestors st payout).g_claims := by
  unfold recordClaim
  cases hentry : st.g_claims[payout.1]? with
  | none => exact .refl _
  | some claim =>
    refine .insert fun old hold => ?_
    obtain rfl := Option.some.inj (hentry.symm.trans hold)
    refine ⟨rfl, ?_⟩
    split_ifs with hzero
    · exact .inr ⟨hzero, Int.natCast_nonneg _⟩
    · exact .inl rfl

theorem keeps_connectBlock {kernel : Kernel} {ctx : Circumstances}
    {ancestors : IndexChain} {st : ConnectState} : st.g_claims.Keeps
      (connectBlock env kernel ctx ancestors false st).state.g_claims := by
  refine connectBlock_pool_invariant (P := fun pool => st.g_claims.Keeps pool) ?_ ?_ ?_ (.refl _)
  · intro pool pool' hkeeps himage
    refine hkeeps.trans fun source claim hentry => ?_
    have hpart := ClaimPool.image_eq_iff.mp himage source
    rw [hentry, Option.map_some] at hpart
    obtain ⟨claim', hentry', hsame⟩ := Option.map_eq_some_iff.mp hpart
    have hcore : claim'.core = claim.core := by
      have hcores := congrArg core hsame
      exact hcores
    have htime : claim'.nTime = claim.nTime := by
      have htimes := congrArg nTime hsame
      exact htimes
    exact ⟨claim', hentry', hcore, .inl htime⟩
  · intro pool claim _ hkeeps
    refine hkeeps.trans ?_
    unfold ClaimPool.merge
    split_ifs with hunique
    · exact .insert_new hunique
    · exact .refl _
  · intro st' payout hkeeps
    exact hkeeps.trans (keeps_recordClaim ancestors st' payout)

theorem keeps_apply {call : NodeCall} (hcall : call.AtPublisher) (node : ClaimNode) :
    node.g_claims.Keeps (call.apply env node).g_claims := by
  cases call with
  | processClaim texts now written message =>
    have hlearns : node.store.Learns env written
        (node.store.processClaim env texts now written message) :=
      learns_processClaim now message
    exact hlearns.keeps
  | queueclaim texts now written strAddress strSign strMessage =>
    have hlearns : node.store.Learns env written
        (node.store.queueclaim env texts now written strAddress strSign strMessage) :=
      learns_queueclaim now strAddress strSign strMessage
    exact hlearns.keeps
  | applyClaimSet texts claims => exact hcall.elim
  | tip call =>
    cases call with
    | connectTip kernel ctx flushed pindexNew block =>
      change ClaimPool.Keeps _ (connectTip env kernel ctx flushed pindexNew block
        node.toChainstate).state.1.g_claims
      rw [(connectTip_claims rfl).1]
      exact @keeps_connectBlock env kernel ctx node.m_chain
        (node.connecting pindexNew block)
    | disconnectTip keys flushed block undo =>
      obtain ⟨hclaims, -, -⟩ := @disconnectTip_claims env keys flushed block undo
        node.toChainstate
      change ClaimPool.Keeps _ (disconnectTip env keys flushed block undo
        node.toChainstate).state.g_claims
      rw [hclaims]
      exact .refl _
  | restart => exact hcall.elim

end Calls

/-! ## A round of the loop -/

namespace Publisher

variable {env : Env} {tools : PublishTools} {publisher : Publisher} {now : ℤ}

theorem mem_newClaims {claim : Claim} : claim ∈ publisher.newClaims ↔
    ∃ source : CScript, publisher.node.g_claims[source]? = some claim ∧
      publisher.last_publish_time < claim.nTime := by
  unfold newClaims
  rw [List.mem_filter, List.mem_map, decide_eq_true_eq]
  constructor
  · rintro ⟨⟨⟨source, claim⟩, hmem, rfl⟩, htime⟩
    exact ⟨source, mem_toList_iff_getElem?_eq_some.mp hmem, htime⟩
  · rintro ⟨source, hentry, htime⟩
    exact ⟨⟨(source, claim), mem_toList_iff_getElem?_eq_some.mpr hentry, rfl⟩, htime⟩

/-- The three outcomes of a round: nothing to do, the end of the loop, a new set. -/
theorem poll_cases (env : Env) (tools : PublishTools) (now : ℤ) (publisher : Publisher) :
    ((publisher.exited = true ∨ publisher.newClaims = []) ∧
      publisher.publishes env tools now = none ∧ publisher.poll env tools now = publisher) ∨
    (publisher.exited = false ∧ publisher.newClaims ≠ [] ∧
      publisher.publishes env tools now = none ∧
      publisher.poll env tools now = { publisher with exited := true }) ∨
    ∃ set, publisher.exited = false ∧ publisher.newClaims ≠ [] ∧
      publisher.publishes env tools now = some set ∧
      publisher.poll env tools now =
        { publisher with send_claimset := set, last_publish_time := now } := by
  by_cases hidle : publisher.exited = true ∨ publisher.newClaims = []
  · left
    refine ⟨hidle, ?_, ?_⟩
    · unfold publishes
      rw [if_pos (by simpa using hidle)]
    · unfold poll
      split_ifs with hexited hempty hnone
      · rfl
      · rfl
      · rfl
      · exact absurd hidle (by simpa [hexited] using hnone)
  · rw [not_or, Bool.not_eq_true] at hidle
    obtain ⟨hexited, hnew⟩ := hidle
    have hpool : publisher.node.g_claims.isEmpty = false := by
      obtain ⟨claim, hmem⟩ := List.exists_mem_of_ne_nil _ hnew
      obtain ⟨source, hentry, -⟩ := mem_newClaims.mp hmem
      rw [Bool.eq_false_iff]
      intro hempty
      rw [isEmpty_iff.mp hempty] at hentry
      cases hentry
    have hnone : publisher.newClaims.isEmpty = false := by simpa using hnew
    right
    unfold publishes poll
    simp only [hexited, hpool, hnone, Bool.or_self, Bool.false_eq_true, if_false]
    cases hadded : ({ nTime := now } : CClaimSet).addNewClaims env tools.texts
        (tools.sort publisher.newClaims) with
    | none => exact .inl ⟨trivial, hnew, rfl, rfl⟩
    | some sendThis =>
      unfold publishClaimset
      simp only [hpool, Bool.false_eq_true, if_false, Option.bind_some]
      cases signClaimSet env tools sendThis with
      | none => exact .inl ⟨trivial, hnew, rfl, rfl⟩
      | some signed =>
        refine .inr ⟨signed, trivial, hnew, rfl, ?_⟩
        rw [Option.map_some, hexited]

theorem node_poll (publisher : Publisher) :
    (publisher.poll env tools now).node = publisher.node := by
  rcases poll_cases env tools now publisher with
    ⟨-, -, hpoll⟩ | ⟨-, -, -, hpoll⟩ | ⟨set, -, -, -, hpoll⟩
  all_goals rw [hpoll]

/-- What a round publishes: an unchecked set with an entry for each new claim. -/
theorem publishes_eq_some {set : CClaimSet} (h : publisher.publishes env tools now = some set) :
    publisher.exited = false ∧ set.claims =
        (tools.sort publisher.newClaims).map (setClaim env tools.texts) ∧
      set.fChecked = false := by
  unfold publishes at h
  split_ifs at h with hidle
  rw [Bool.or_eq_true, not_or, Bool.not_eq_true] at hidle
  obtain ⟨sendThis, hadded, hsigned⟩ := Option.bind_eq_some_iff.mp h
  obtain ⟨vchSig, -, rfl⟩ := Option.map_eq_some_iff.mp hsigned
  rw [addNewClaims_eq_some hadded]
  exact ⟨hidle.1, rfl, rfl⟩

/-- The new claims have different sources. -/
theorem nodup_newClaims (h : publisher.node.store.Coherent env) :
    (publisher.newClaims.map getSource).Nodup := by
  have hsource (entry : CScript × Claim) (hmem : entry ∈ publisher.node.g_claims.toList) :
      entry.2.getSource = entry.1 :=
    h.getSource_eq (mem_toList_iff_getElem?_eq_some.mp hmem)
  refine List.Nodup.sublist (List.filter_sublist.map _) ?_
  rw [List.map_map, List.Nodup, List.pairwise_map]
  refine (distinct_keys_toList (t := publisher.node.g_claims)).imp_of_mem ?_
  intro first second hfirst hsecond hne hsame
  rw [Function.comp_apply, Function.comp_apply, hsource first hfirst,
    hsource second hsecond] at hsame
  exact hne (by rw [hsame]; exact Std.ReflCmp.compare_self)

/-- Sendable claims that are not too many become a valid set. -/
theorem publishes_of_sendable (h : publisher.node.store.Coherent env)
    (hsign : ∀ hash, ∃ vchSig, tools.sign hash = some vchSig ∧
      CClaimSet.signatureAccepted env hash vchSig = true)
    (hexited : publisher.exited = false) (hnew : publisher.newClaims ≠ [])
    (hcount : publisher.newClaims.length ≤ MAX_CLAIMS_COUNT)
    (hsend : ∀ claim ∈ publisher.newClaims, claim.Sendable env tools.texts claim.getSource) :
    ∃ set, publisher.publishes env tools now = some set ∧ set.isValid env = true := by
  have hperm := tools.sort_perm publisher.newClaims
  have hsend' (claim : Claim) (hmem : claim ∈ tools.sort publisher.newClaims) :
      claim.Sendable env tools.texts claim.getSource := hsend claim (hperm.mem_iff.mp hmem)
  have hnodup : ((tools.sort publisher.newClaims).map getSource).Nodup :=
    (hperm.map getSource).nodup_iff.mpr (nodup_newClaims h)
  have hadded := @addNewClaims_of_sendable env tools.texts (tools.sort publisher.newClaims)
    { nTime := now } hsend' hnodup (by simp)
  obtain ⟨vchSig, hsigned, haccepted⟩ := hsign (CClaimSet.getHash env
    { nTime := now
      claims := (tools.sort publisher.newClaims).map (setClaim env tools.texts) })
  let claims := (tools.sort publisher.newClaims).map (setClaim env tools.texts)
  refine ⟨{ nTime := now, vchSig, claims }, ?_, ?_⟩
  · unfold publishes
    rw [if_neg (by simpa using ⟨hexited, hnew⟩), hadded, Option.bind_some]
    exact Option.map_eq_some_iff.mpr ⟨vchSig, hsigned, rfl⟩
  · refine isValid_of_sendable rfl rfl haccepted hsend' hnodup ?_ ?_
    · intro hnil
      rw [hnil] at hperm
      exact hnew hperm.symm.eq_nil
    · rw [hperm.length_eq]
      exact hcount

end Publisher

end Patchcoin
