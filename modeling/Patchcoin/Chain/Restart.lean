import Patchcoin.Claim.Learn
import Patchcoin.Chain.Totals

/-!
# Restarts of a node

A node that is stopped and started again rebuilds its claims from the database and the
active chain.  Nothing is lost as long as every change to the map has its counterpart
there, and blocks break this in four ways:

* a claim that comes with a block is written to the database only when it is paid;
* a payout that is taken off the chain, or whose block is not connected in the end,
  still counts in the map;
* an entry that holds a payout from an earlier connection counts on the chain only;
* the payouts of a Bitcoin claim are not summed up on a node without the lookup
  service, and a claim that has received more than the maximum is refused at startup,
  which stops the node.

`restarts_equal_iff` says that, with failed writes and claims that are learned after
they were paid, these are all the ways.
-/

namespace Patchcoin

open Std.ExtTreeMap ClaimPool Claim Chainstate

variable {env : Env} {source : CScript}

/-! ## Nodes -/

/-- A node, as far as claims go. -/
structure ClaimNode extends Chainstate where
  claims_seen : Std.ExtTreeMap CScript ℤ compare

def Chainstate.store (chainstate : Chainstate)
    (claims_seen : Std.ExtTreeMap CScript ℤ compare) : ClaimStore :=
  ⟨chainstate.g_claims, chainstate.g_claimindex, claims_seen⟩

def ClaimNode.store (node : ClaimNode) : ClaimStore := node.toChainstate.store node.claims_seen

def ClaimNode.setStore (node : ClaimNode) (store : ClaimStore) : ClaimNode :=
  { node with
    g_claims := store.g_claims
    g_claimindex := store.g_claimindex
    claims_seen := store.claims_seen }

/-- A restart of the node succeeds and leaves the map as it is. -/
def ClaimNode.RestartsEqual (env : Env) (node : ClaimNode) : Prop :=
  node.store.RestartsEqual env node.m_chain

/-- What happens to a node. -/
inductive NodeCall where
  | processClaim (texts : Texts) (now : ℤ) (written : Bool) (message : CClaim)
  | queueclaim (texts : Texts) (now : ℤ) (written : Bool) (strAddress strSign strMessage : String)
  | applyClaimSet (texts : Texts) (claims : List (CClaimSetClaim × Bool))
  | tip (call : TipCall)
  | restart

/-- The node after a call.  A node whose startup fails stays as it was stopped. -/
def NodeCall.apply (env : Env) (node : ClaimNode) : NodeCall → ClaimNode
  | .processClaim texts now written message =>
    node.setStore (node.store.processClaim env texts now written message)
  | .queueclaim texts now written strAddress strSign strMessage =>
    node.setStore (node.store.queueclaim env texts now written strAddress strSign strMessage)
  | .applyClaimSet texts claims => node.setStore (node.store.applyClaimSet env texts claims)
  | .tip call => { node with toChainstate := call.apply env node.toChainstate }
  | .restart =>
    if (node.store.restart env node.m_chain).2 then
      { node with
        g_claims := (node.store.restart env node.m_chain).1
        claims_seen := ∅ }
    else node

/-! ## Blocks keep the map and the database together -/

section Connect

variable {kernel : Kernel} {ctx : Circumstances} {ancestors : IndexChain}
  {st : ConnectState} {claims_seen : Std.ExtTreeMap CScript ℤ compare}

def ConnectState.store (st : ConnectState) (claims_seen : Std.ExtTreeMap CScript ℤ compare) :
    ClaimStore :=
  ⟨st.g_claims, st.g_claimindex, claims_seen⟩

theorem tidy_connectBlock (h : st.g_claims.Tidy) :
    (connectBlock env kernel ctx ancestors false st).state.g_claims.Tidy := by
  refine connectBlock_pool_invariant (P := ClaimPool.Tidy) ?_ ?_ ?_ h
  · intro pool pool' htidy himage
    exact htidy.of_image_eq (image_eq_of_image_eq himage fun first second hsame => by
      have hidentity := congrArg identity hsame
      exact hidentity)
  · intro pool claim hvalid htidy
    refine htidy.merge ?_
    rw [checkedClaim, m_init_isValid]
    exact m_init_of_isValid hvalid
  · intro st payout htidy
    unfold recordClaim
    split
    · exact htidy
    · rename_i claim hentry
      exact htidy.replace hentry rfl

theorem Claim.Admitted.of_forgetElectrum_eq {claim claim' : Claim} (h : claim.Admitted env)
    (hsame : claim'.forgetElectrum = claim.forgetElectrum) : claim'.Admitted env := by
  have hclaim := congrArg m_claim hsame
  have hstandalone := congrArg ClaimPool.standalone hsame
  refine ⟨?_, ?_⟩
  · rw [show claim'.m_claim = claim.m_claim from hclaim]
    exact h.valid
  · rw [show ClaimPool.standalone claim' = ClaimPool.standalone claim from hstandalone]
    exact h.standalone

theorem admitted_connectBlock
    (h : ∀ (source : CScript) (claim : Claim), st.g_claims[source]? = some claim →
      claim.Admitted env) (source : CScript) (claim : Claim)
    (hentry : (connectBlock env kernel ctx ancestors false
      st).state.g_claims[source]? = some claim) : claim.Admitted env := by
  refine connectBlock_pool_invariant (P := fun pool : ClaimPool => ∀ (source : CScript)
    (claim : Claim), pool[source]? = some claim → claim.Admitted env) ?_ ?_ ?_ h source claim hentry
  · intro pool pool' hall himage source claim' hentry'
    have hpart := image_eq_iff.mp himage source
    rw [hentry', Option.map_some] at hpart
    obtain ⟨claim, hentry, hsame⟩ := Option.map_eq_some_iff.mp hpart.symm
    exact (hall source claim hentry).of_forgetElectrum_eq hsame.symm
  · intro pool claim hvalid hall source other hother
    unfold merge at hother
    split_ifs at hother with hunique
    · rw [getElem?_insert] at hother
      split_ifs at hother with heq
      · rw [← Option.some.inj hother]
        refine ⟨?_, (isUnique_iff.mp hunique).1⟩
        rw [checkedClaim, m_claim_isValid, m_claim_ofCClaim]
        exact hvalid
      · exact hall source other hother
    · exact hall source other hother
  · intro st payout hall source other hother
    unfold recordClaim at hother
    split at hother
    · exact hall source other hother
    · rename_i claim hentry
      rw [getElem?_insert] at hother
      by_cases heq : compare payout.1 source = .eq
      · obtain ⟨hvalid, hstandalone⟩ := hall payout.1 claim hentry
        rw [if_pos heq] at hother
        rw [← Option.some.inj hother]
        exact ⟨hvalid, hstandalone⟩
      · rw [if_neg heq] at hother
        exact hall source other hother

theorem coherent_connectBlock (h : (st.store claims_seen).Coherent env) :
    ((connectBlock env kernel ctx ancestors false st).state.store claims_seen).Coherent
      env := by
  have hsound : st.g_claims.Sound env := h.sound
  refine ⟨hsound.connectBlock, tidy_connectBlock h.tidy, admitted_connectBlock h.admitted, ?_⟩
  intro source record hrecord
  by_cases hpays : ∃ value, PaysClaim env kernel ctx ancestors st source value
  · obtain ⟨value, hvalue⟩ := hpays
    obtain ⟨-, claim, -, hclaim, hindex, -⟩ := connectBlock_of_paysClaim hsound hvalue
    refine ⟨_, hclaim, ?_⟩
    rw [← Option.some.inj (hindex.symm.trans hrecord)]
    rfl
  · rw [not_exists] at hpays
    obtain ⟨⟨_, _, hgrown, hafter⟩, hindex, -⟩ := connectBlock_of_not_paysClaim hsound hpays
    obtain ⟨claim, hentry, hsame⟩ := h.copies source record (hindex.symm.trans hrecord)
    obtain ⟨claim', hentry', hforget⟩ := hgrown.kept source claim hentry
    have hmessage := congrArg m_claim hforget
    exact ⟨claim', hafter.trans hentry', hsame.trans hmessage.symm⟩

/-- A payout was checked with the sum of the payouts before it, if these are counted. -/
theorem withinLimits_of_paysClaim (hpool : st.g_claims.Sound env) {value : ℤ}
    (hpays : PaysClaim env kernel ctx ancestors st source value) :
    (WithinLimits env source (value + claimedTotal ancestors source) ↔
      Countable env source ∨ value + claimedTotal ancestors source ≤ MAX_CLAIM_REWARD) ∧
    ∀ chain : IndexChain, countedTotal env chain source = claimedTotal chain source := by
  obtain ⟨hrecords, hpaid⟩ := hpays
  have hloop := paidLoop_of_recordsBlock hpool hrecords
  obtain ⟨-, claim, hfrom⟩ := hloop.paid.paid source source value hpaid
  have hvalid : (claim.isValid env).2 = .OK := by rw [hfrom.valid]
  obtain ⟨hbuilt, -⟩ := hloop.paid.sound source claim hfrom.entry
  have hworth := hbuilt.worth (m_init_of_isValid hvalid)
  have hsource : claim.m_claim.source = source := hworth.getSource_eq.symm.trans hfrom.source_eq
  obtain ⟨nOutputs, count, hamounts⟩ := hfrom.amounts
  have hpayable : Payable env ancestors source value nOutputs := by
    rw [← hsource]
    refine (checkClaimAmounts_iff_payable hbuilt hvalid).mp ⟨count, ?_⟩
    rw [hfrom.valid]
    exact hamounts
  refine ⟨?_, fun chain => ?_⟩
  · constructor
    · intro hlimits
      exact .inr hlimits.1
    · intro h
      by_cases hcountable : Countable env source
      · have hreceived : receivedBefore env ancestors source = claimedTotal ancestors source :=
          if_pos hcountable
        have heligible := hpayable.eligible hcountable
        have hreward := hpayable.reward_le
        rw [hreceived] at heligible hreward
        exact ⟨by omega, fun _ => by omega⟩
      · exact ⟨h.resolve_left hcountable, fun hyes => absurd hyes hcountable⟩
  · rw [countedTotal, if_neg]
    rintro ⟨hinside, hle⟩
    have hpositive := (hpayable.snapshot hinside).1
    omega

end Connect

/-! ## What a restart keeps of one claim -/

theorem countedTotal_congr {pindex pindex' : CBlockIndex}
    (h : pindex.nClaims[source]? = pindex'.nClaims[source]?) :
    countedTotal env [pindex] source = countedTotal env [pindex'] source := by
  unfold countedTotal
  rw [claimedTotal_cons, claimedTotal_cons, getD_eq_getD_getElem?, h,
    ← getD_eq_getD_getElem?]

/-- A restart keeps the claim on the source. -/
def ClaimStore.KeepsEntry (env : Env) (tip : IndexChain) (store : ClaimStore) (source : CScript)
    (claim : Claim) : Prop :=
  (∃ record : ClaimRecord, store.g_claimindex[source]? = some record ∧
    record.nTime = claim.nTime ∧ record.m_seen = claim.m_seen) ∧
    claim.nTotalReceived = countedTotal env tip source ∧
    WithinLimits env source claim.nTotalReceived

theorem preserved_iff_keepsEntry {store : ClaimStore} {tip : IndexChain} :
    store.Preserved env tip ↔ ∀ (source : CScript) (claim : Claim),
      store.g_claims[source]? = some claim → store.KeepsEntry env tip source claim := by
  constructor
  · rintro ⟨hcopied, hcounted, hlimited⟩ source claim hentry
    exact ⟨hcopied source claim hentry, hcounted source claim hentry, hlimited source claim hentry⟩
  · intro h
    exact ⟨fun source claim hentry => (h source claim hentry).1,
      fun source claim hentry => (h source claim hentry).2.1,
      fun source claim hentry => (h source claim hentry).2.2⟩

section Tip

variable {kernel : Kernel} {ctx : Circumstances} {flushed : Except BlockFail Unit}
  {pindexNew : CBlockIndex} {block : CBlock} {chainstate : Chainstate}
  {claims_seen : Std.ExtTreeMap CScript ℤ compare}
variable {claim' : Claim}

section

variable {call : Outcome (Chainstate × CBlockIndex) BlockFail Unit}
    (hcall : connectTip env kernel ctx flushed pindexNew block chainstate = call)
    (h : (chainstate.store claims_seen).Coherent env)
include hcall h

theorem coherent_connectTip : (call.state.1.store claims_seen).Coherent env := by
  obtain ⟨hclaims, hcopies, -⟩ := connectTip_claims hcall
  unfold store
  rw [hclaims, hcopies]
  have hstart : ((chainstate.connecting pindexNew block).store claims_seen).Coherent env := h
  exact coherent_connectBlock hstart

/-- A claim that the block pays. -/
theorem keepsEntry_of_paysClaim {value : ℤ} (hpays : PaysClaim env kernel ctx chainstate.m_chain
      (chainstate.connecting pindexNew block) source value)
    (hentry : call.state.1.g_claims[source]? = some claim') :
    (call.state.1.store claims_seen).KeepsEntry env call.state.1.m_chain source claim' ↔
      (call.result = .ok () ∨ value = 0) ∧ (Countable env source ∨
        value + claimedTotal chainstate.m_chain source ≤ MAX_CLAIM_REWARD) := by
  have hsound : (chainstate.connecting pindexNew block).g_claims.Sound env := h.sound
  obtain ⟨hnonneg, claim, -, hclaim, hindex, hpayout⟩ := connectBlock_of_paysClaim hsound hpays
  obtain ⟨hlimits, hcounted⟩ := withinLimits_of_paysClaim hsound hpays
  obtain ⟨hclaims, hcopies, hchain⟩ := connectTip_claims hcall
  rw [hclaims] at hentry
  have hrecorded := Option.some.inj (hclaim.symm.trans hentry)
  have htotal : claim'.nTotalReceived = value + claimedTotal chainstate.m_chain source := by
    rw [← hrecorded]
    change ((value.toNat + claimedTotal chainstate.m_chain source : ℕ) : ℤ) = _
    rw [Nat.cast_add, Int.toNat_of_nonneg hnonneg]
  -- the copy is written together with the claim
  have hcopy : ∃ record : ClaimRecord, (call.state.1.store claims_seen).g_claimindex[source]? =
      some record ∧ record.nTime = claim'.nTime ∧ record.m_seen = claim'.m_seen := by
    refine ⟨_, (congrArg (fun index => index[source]?) hcopies).trans hindex, ?_, ?_⟩
    · rw [← hrecorded]
      rfl
    · rw [← hrecorded]
      rfl
  unfold ClaimStore.KeepsEntry
  rw [and_iff_right hcopy, htotal, hlimits, hcounted]
  refine and_congr_left fun _ => ?_
  rcases hchain with ⟨hok, hchain⟩ | ⟨hno, hchain⟩
  · rw [hchain, claimedTotal_cons, getD_eq_getD_getElem?, hpayout,
      Option.getD_some, Nat.cast_add, Int.toNat_of_nonneg hnonneg]
    exact iff_of_true rfl (.inl hok)
  · rw [hchain]
    constructor
    · intro hsum
      right
      omega
    · intro hcase
      rw [hcase.resolve_left hno, zero_add]

variable (hpreserved : (chainstate.store claims_seen).Preserved env chainstate.m_chain)
include hpreserved

/-- A claim that the block does not pay. -/
theorem keepsEntry_of_not_paysClaim (hpays : ∀ value, ¬ PaysClaim env kernel ctx chainstate.m_chain
      (chainstate.connecting pindexNew block) source value)
    (hentry : call.state.1.g_claims[source]? = some claim') :
    (call.state.1.store claims_seen).KeepsEntry env call.state.1.m_chain source claim' ↔
      chainstate.g_claims.contains source = true ∧
        (call.result = .ok () → countedTotal env [pindexNew] source = 0) := by
  have hsound : (chainstate.connecting pindexNew block).g_claims.Sound env := h.sound
  obtain ⟨⟨_, _, hgrown, hafter⟩, hindex, hpayouts⟩ :=
    connectBlock_of_not_paysClaim hsound hpays
  obtain ⟨hclaims, hcopies, hchain⟩ := connectTip_claims hcall
  have hcopies' : call.state.1.g_claimindex[source]? = chainstate.g_claimindex[source]? :=
    (congrArg (fun index => index[source]?) hcopies).trans hindex
  rw [contains_eq_isSome_getElem?]
  cases hbefore : chainstate.g_claims[source]? with
  | none =>
    -- the claim has come with the block and is in the map only
    refine iff_of_false ?_ (by simp)
    rintro ⟨⟨record, hrecord, -⟩, -⟩
    have hnone : chainstate.g_claimindex[source]? = none := h.index_eq_none hbefore
    have hsome := hcopies'.symm.trans hrecord
    rw [hnone] at hsome
    cases hsome
  | some claim =>
    obtain ⟨claim'', hentry'', hforget⟩ := hgrown.kept source claim hbefore
    rw [hclaims, hafter, hentry''] at hentry
    obtain rfl := Option.some.inj hentry
    have htime := congrArg nTime hforget
    have hseen := congrArg m_seen hforget
    have hsame := congrArg nTotalReceived hforget
    change claim''.nTotalReceived = claim.nTotalReceived at hsame
    obtain ⟨record, hrecord, htime', hseen'⟩ := hpreserved.copied source claim hbefore
    have hcopy : ∃ record : ClaimRecord, (call.state.1.store claims_seen).g_claimindex[source]? =
        some record ∧ record.nTime = claim''.nTime ∧ record.m_seen = claim''.m_seen :=
      ⟨record, hcopies'.trans hrecord, htime'.trans htime.symm, hseen'.trans hseen.symm⟩
    have hlimits : WithinLimits env source claim''.nTotalReceived := by
      rw [hsame]
      exact hpreserved.limited source claim hbefore
    unfold ClaimStore.KeepsEntry
    rw [and_iff_right hcopy, and_iff_left hlimits, hsame, hpreserved.counted source claim hbefore]
    rw [and_iff_right (show (some claim).isSome = true from rfl), Nat.cast_inj]
    rcases hchain with ⟨hok, hchain⟩ | ⟨hno, hchain⟩
    · rw [hchain, countedTotal_cons, countedTotal_congr hpayouts]
      change _ = countedTotal env [pindexNew] source + _ ↔ _
      constructor
      · intro hsum _
        omega
      · intro hzero
        rw [hzero hok, Nat.zero_add]
    · rw [hchain]
      exact iff_of_true rfl fun hyes => absurd hyes hno

end

/-- `DisconnectTip` leaves the claims alone, so only the chain can change. -/
theorem preserved_disconnectTip_iff {keys : PubKeys} {block : Option CBlock} {undo : List UInt8}
    (hpreserved : (chainstate.store claims_seen).Preserved env chainstate.m_chain) :
    let call := disconnectTip env keys flushed block undo chainstate
    (call.state.store claims_seen).Preserved env call.state.m_chain ↔
      ∀ source, call.result = .ok () → chainstate.g_claims.contains source = true →
        ∀ tip ∈ chainstate.m_chain.head?, countedTotal env [tip] source = 0 := by
  dsimp only
  obtain ⟨hclaims, hindex, ⟨hok, tip, hchain⟩ | ⟨hno, hchain⟩⟩ :=
    @disconnectTip_claims env keys flushed block undo chainstate
  · have hstore : (disconnectTip env keys flushed block undo chainstate).state.store claims_seen =
        chainstate.store claims_seen := by
      rw [store, hclaims, hindex]
      rfl
    have htotal (source : CScript) : countedTotal env chainstate.m_chain source =
        countedTotal env [tip] source + countedTotal env
          (disconnectTip env keys flushed block undo chainstate).state.m_chain source := by
      rw [hchain, countedTotal_cons]
    have hhead (source : CScript) : (∀ first ∈ chainstate.m_chain.head?,
        countedTotal env [first] source = 0) ↔ countedTotal env [tip] source = 0 := by
      rw [hchain]
      simp
    rw [hstore]
    constructor
    · intro hafter source _ hcontains
      rw [contains_eq_isSome_getElem?] at hcontains
      obtain ⟨claim, hentry⟩ := Option.isSome_iff_exists.mp hcontains
      have hbefore := hpreserved.counted source claim hentry
      have hnow := hafter.counted source claim hentry
      have hsum := htotal source
      rw [hhead]
      omega
    · intro hempty
      refine ⟨hpreserved.copied, fun source claim hentry => ?_, hpreserved.limited⟩
      have hcontains : chainstate.g_claims.contains source = true := by
        rw [contains_eq_isSome_getElem?]
        exact Option.isSome_iff_exists.mpr ⟨claim, hentry⟩
      have hzero := (hhead source).mp (hempty source hok hcontains)
      have hbefore := hpreserved.counted source claim hentry
      have hsum := htotal source
      rw [hzero, Nat.zero_add] at hsum
      rw [hbefore, hsum]
  · refine iff_of_true ?_ fun _ hok => absurd hok hno
    rw [store, hclaims, hindex, hchain]
    exact hpreserved

end Tip

/-! ## Restarting -/

section Restarting

variable {store : ClaimStore} {tip : IndexChain}

theorem sound_restart (store : ClaimStore) (tip : IndexChain) :
    (store.restart env tip).1.Sound env := by
  have hload (records : List ClaimRecord) (pool : ClaimPool) (hpool : pool.Sound env) :
      (pool.loadClaims env tip records).1.Sound env := by
    induction records generalizing pool with
    | nil => exact hpool
    | cons record rest ih =>
      have hstep := hpool.insertClaim (@built_reloaded env tip record)
      rw [loadClaims_cons]
      split_ifs
      · exact ih _ hstep
      · exact hstep
  exact hload _ ∅ sound_empty

/-- The map that a restart has rebuilt belongs to the database. -/
theorem coherent_restart (h : store.Coherent env) (hok : (store.restart env tip).2 = true)
    (claims_seen : Std.ExtTreeMap CScript ℤ compare) :
    ClaimStore.Coherent env ⟨(store.restart env tip).1, store.g_claimindex, claims_seen⟩ := by
  refine ⟨sound_restart store tip, tidy_empty.loadClaims tip _, ?_, ?_⟩
  · intro source entry hentry
    rw [h.restart_entry hok] at hentry
    obtain ⟨record, hrecord, rfl⟩ := Option.map_eq_some_iff.mp hentry
    obtain ⟨claim, hclaim, -⟩ := h.copies source record hrecord
    obtain ⟨-, -, hadmitted⟩ := h.reloaded hrecord hclaim tip
    exact hadmitted.of_forgetElectrum_eq (forgetElectrum_isValid _)
  · intro source record hrecord
    refine ⟨_, by rw [h.restart_entry hok, hrecord, Option.map_some], ?_⟩
    rw [m_claim_isValid, m_claim_reloaded]

end Restarting

/-! ## Runs -/

/-- A call on the tip that leaves a node that can be restarted.  For a block that is connected:
a payout belongs to the chain in the end and is within the limits, and a claim that is not
paid was in the map before and finds no payout in the entry.  For a block that is
disconnected: its entry holds no payout. -/
def TipCall.Durable (env : Env) (chainstate : Chainstate) : TipCall → Prop
  | .connectTip kernel ctx flushed pindexNew block =>
    let call := Patchcoin.connectTip env kernel ctx flushed pindexNew block chainstate
    let pays := PaysClaim env kernel ctx chainstate.m_chain
      (chainstate.connecting pindexNew block)
    ∀ source, call.state.1.g_claims.contains source = true →
      (∀ value, pays source value → (call.result = .ok () ∨ value = 0) ∧
        (Countable env source ∨
          value + claimedTotal chainstate.m_chain source ≤ MAX_CLAIM_REWARD)) ∧
      ((∀ value, ¬ pays source value) → chainstate.g_claims.contains source = true ∧
        (call.result = .ok () → countedTotal env [pindexNew] source = 0))
  | .disconnectTip keys flushed block undo =>
    ∀ source, (Patchcoin.disconnectTip env keys flushed block undo chainstate).result = .ok () →
      chainstate.g_claims.contains source = true →
        ∀ tip ∈ chainstate.m_chain.head?, countedTotal env [tip] source = 0

/-- A call that leaves a node that can be restarted.  A claim that is learned from a message is
written, and its source has not been paid before. -/
def NodeCall.Durable (env : Env) (node : ClaimNode) : NodeCall → Prop
  | .processClaim texts now written message => ∀ (source : CScript) (claim : Claim),
      node.g_claims[source]? = none →
        (node.store.processClaim env texts now written message).g_claims[source]? = some claim →
          written = true ∧ countedTotal env node.m_chain source = 0
  | .queueclaim texts now written strAddress strSign strMessage =>
    ∀ (source : CScript) (claim : Claim), node.g_claims[source]? = none →
      (node.store.queueclaim env texts now written strAddress strSign
        strMessage).g_claims[source]? = some claim →
        written = true ∧ countedTotal env node.m_chain source = 0
  | .applyClaimSet texts claims =>
    node.store.writeFails env texts claims = false ∧
      node.g_claims.NewUnpaid env node.m_chain
        (node.store.applyClaimSet env texts claims).g_claims
  | .tip call => call.Durable env node.toChainstate
  | .restart => True

section Runs

variable {node : ClaimNode}

theorem preserved_connectTip_iff {kernel : Kernel} {ctx : Circumstances}
    {flushed : Except BlockFail Unit} {pindexNew : CBlockIndex} {block : CBlock}
    {chainstate : Chainstate} {claims_seen : Std.ExtTreeMap CScript ℤ compare}
    (h : (chainstate.store claims_seen).Coherent env)
    (hpreserved : (chainstate.store claims_seen).Preserved env chainstate.m_chain) :
    let call := connectTip env kernel ctx flushed pindexNew block chainstate
    (call.state.1.store claims_seen).Preserved env call.state.1.m_chain ↔
      TipCall.Durable env chainstate
        (.connectTip kernel ctx flushed pindexNew block) := by
  dsimp only
  rw [preserved_iff_keepsEntry, TipCall.Durable]
  constructor
  · intro hkeeps source hcontains
    rw [contains_eq_isSome_getElem?] at hcontains
    obtain ⟨claim, hentry⟩ := Option.isSome_iff_exists.mp hcontains
    have hclaim := hkeeps source claim hentry
    exact ⟨fun value hpays => (keepsEntry_of_paysClaim rfl h hpays hentry).mp hclaim,
      fun hpays => (keepsEntry_of_not_paysClaim rfl h hpreserved hpays hentry).mp hclaim⟩
  · intro hdurable source claim hentry
    obtain ⟨hpaid, hunpaid⟩ := hdurable source (by
      rw [contains_eq_isSome_getElem?]
      exact Option.isSome_iff_exists.mpr ⟨claim, hentry⟩)
    by_cases hpays : ∃ value, PaysClaim env kernel ctx chainstate.m_chain
        (chainstate.connecting pindexNew block) source value
    · obtain ⟨value, hvalue⟩ := hpays
      exact (keepsEntry_of_paysClaim rfl h hvalue hentry).mpr (hpaid value hvalue)
    · rw [not_exists] at hpays
      exact (keepsEntry_of_not_paysClaim rfl h hpreserved hpays hentry).mpr (hunpaid hpays)

theorem coherent_apply (call : NodeCall) (h : node.store.Coherent env) :
    (call.apply env node).store.Coherent env := by
  cases call with
  | processClaim texts now written message =>
    exact (learns_processClaim now message).coherent h
  | queueclaim texts now written strAddress strSign strMessage =>
    exact (learns_queueclaim now strAddress strSign strMessage).coherent h
  | applyClaimSet texts claims => exact (h.applyClaimSet claims).1
  | tip call =>
    cases call with
    | connectTip kernel ctx flushed pindexNew block => exact coherent_connectTip rfl h
    | disconnectTip keys flushed block undo =>
      obtain ⟨hclaims, hindex, -⟩ := @disconnectTip_claims env keys flushed block undo
        node.toChainstate
      have hstore : ((NodeCall.tip (.disconnectTip keys flushed block undo)).apply env
          node).store = node.store := by
        change store (disconnectTip env keys flushed block undo
          node.toChainstate).state node.claims_seen = _
        rw [store, hclaims, hindex]
        rfl
      rw [hstore]
      exact h
  | restart =>
    rw [NodeCall.apply]
    split_ifs with hok
    · exact coherent_restart h hok ∅
    · exact h

/-- The calls after which the node can still be restarted. -/
theorem restartsEqual_apply_iff (call : NodeCall) (h : node.store.Coherent env)
    (hequal : node.RestartsEqual env) :
    (call.apply env node).RestartsEqual env ↔ call.Durable env node := by
  have hpreserved : node.store.Preserved env node.m_chain := (restartsEqual_iff h).mp hequal
  have hafter : (call.apply env node).RestartsEqual env ↔
      (call.apply env node).store.Preserved env (call.apply env node).m_chain :=
    restartsEqual_iff (coherent_apply call h)
  cases call with
  | processClaim texts now written message =>
    rw [hafter]
    exact learns_preserved_iff (learns_processClaim now message) h hpreserved
  | queueclaim texts now written strAddress strSign strMessage =>
    rw [hafter]
    exact learns_preserved_iff (learns_queueclaim now strAddress strSign strMessage) h hpreserved
  | applyClaimSet texts claims =>
    rw [hafter]
    exact applyClaimSet_preserved_iff claims h hpreserved
  | tip call =>
    rw [hafter]
    cases call with
    | connectTip kernel ctx flushed pindexNew block =>
      exact preserved_connectTip_iff h hpreserved
    | disconnectTip keys flushed block undo => exact preserved_disconnectTip_iff hpreserved
  | restart =>
    refine iff_of_true ?_ trivial
    rw [NodeCall.apply, if_pos hequal.1]
    exact ⟨hequal.1, rfl⟩

/-- A node without any claims. -/
def ClaimNode.fresh (m_chain : IndexChain) (coinsTip : CCoinsView)
    (setStakeSeen : List (COutPoint × UInt32)) : ClaimNode where
  m_chain := m_chain
  coinsTip := coinsTip
  g_claims := ∅
  setStakeSeen := setStakeSeen
  g_claimindex := ∅
  claims_seen := ∅

theorem coherent_fresh (m_chain : IndexChain) (coinsTip : CCoinsView)
    (setStakeSeen : List (COutPoint × UInt32)) :
    (ClaimNode.fresh m_chain coinsTip setStakeSeen).store.Coherent env :=
  ⟨sound_empty, tidy_empty, fun _ _ hentry => absurd hentry (by
    simp [ClaimNode.store, store, ClaimNode.fresh]), fun _ _ hrecord => absurd hrecord (by
    simp [ClaimNode.store, store, ClaimNode.fresh])⟩

/-- In a run that starts without claims, the node can be restarted at any time, with the same
claims, exactly if every call is durable. -/
theorem restarts_equal_iff (m_chain : IndexChain) (coinsTip : CCoinsView)
    (setStakeSeen : List (COutPoint × UInt32)) (calls : List NodeCall) :
    Run.Always (NodeCall.apply env) (fun node => node.RestartsEqual env) calls
        (.fresh m_chain coinsTip setStakeSeen) ↔
      Run.Each (NodeCall.apply env) (fun node call => call.Durable env node) calls
        (.fresh m_chain coinsTip setStakeSeen) := by
  refine Run.always_iff_each (I := fun node => node.store.Coherent env)
    (fun _ call => coherent_apply call) (fun _ call => restartsEqual_apply_iff call)
    (coherent_fresh m_chain coinsTip setStakeSeen) ?_
  exact ⟨rfl, rfl⟩

end Runs

namespace SmallNet

/-- A block with a claim that it does not pay. -/
def unpaidBlock : CBlock :=
  payBlock 1 genesisHash 1700000500 0 50000000000 [⟨50000000000, genesisPubKey⟩]
    [mkClaim (payToKeyHash 1) (payToKeyHash 2)]

/-- A node that has connected the genesis block. -/
def genesisNode : ClaimNode :=
  .fresh (genesisChain (node false false)) (reach (node false false) [genesisBlock]).1.view
    (reach (node false false) [genesisBlock]).1.setStakeSeen

/-- Connect the block. -/
def connectUnpaid : NodeCall :=
  .tip (.connectTip stakeKernel ordinary (.ok ()) (second (node false false) unpaidBlock).pindex
    unpaidBlock)

/-- A node that has connected the block has the claim in its map, and does not have it any more
when it is restarted. -/
theorem unpaid_claim_is_lost :
    let connected := Run.after (NodeCall.apply (node false false)) [connectUnpaid] genesisNode
    connected.m_chain.length = 2 ∧ connected.g_claims.contains (payToKeyHash 1) = true ∧
      (connected.store.restart (node false false) connected.m_chain).2 = true ∧
      (connected.store.restart (node false false) connected.m_chain).1.contains
        (payToKeyHash 1) = false := by
  decide +kernel

end SmallNet

end Patchcoin
