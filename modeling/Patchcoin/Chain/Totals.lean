import Patchcoin.Lib.Run
import Patchcoin.Chain.PoolSteps
import Patchcoin.Chain.DisconnectBlock
import Patchcoin.Chain.Caps

/-!
# Received totals and the active chain

`ConnectBlock` writes the total that a claim has received into the claim and into
its copy in the claim index.  The total is right for the chain that the block is
connected to.  It stays right as long as the record of the block and the block
itself go together, and there are four ways in which they do not:

* `DisconnectTip` takes the block off the chain and leaves the total;
* a call of `ConnectTip` fails after the records were written;
* the entry of the block still holds a payout from an earlier connection that
  this one does not make;
* a claim comes into the pool, with a total of zero, that was paid before.

`totals_follow_iff` says that these are all the ways, at every step of a run.
-/

namespace Patchcoin

open Std.ExtTreeMap Chainstate

variable {env : Env} {source : CScript}

/-! ## Calls -/

/-- A call that changes the tip, with what it finds on disk. -/
inductive TipCall where
  | connectTip (kernel : Kernel) (ctx : Circumstances) (flushed : Except BlockFail Unit)
      (pindexNew : CBlockIndex) (block : CBlock)
  | disconnectTip (keys : PubKeys) (flushed : Except BlockFail Unit) (block : Option CBlock)
      (undo : List UInt8)

/-- The state that a call leaves, whether it succeeds or not. -/
def TipCall.apply (env : Env) (chainstate : Chainstate) : TipCall → Chainstate
  | .connectTip kernel ctx flushed pindexNew block =>
    (Patchcoin.connectTip env kernel ctx flushed pindexNew block chainstate).state.1
  | .disconnectTip keys flushed block undo =>
    (Patchcoin.disconnectTip env keys flushed block undo chainstate).state

/-! ## The property -/

/-- The claim on the source, and the copy stored for it, hold what the active chain has
paid. -/
def Chainstate.FollowsAt (chainstate : Chainstate) (source : CScript) : Prop :=
  ∀ claim : Claim, chainstate.g_claims[source]? = some claim →
    claim.nTotalReceived = claimedTotal chainstate.m_chain source ∧
      ∀ record : ClaimRecord, chainstate.g_claimindex[source]? = some record →
        record.nTotalReceived = claimedTotal chainstate.m_chain source

theorem Chainstate.followsAt_iff {chainstate : Chainstate} {claim : Claim}
    (hentry : chainstate.g_claims[source]? = some claim) : chainstate.FollowsAt source ↔
      claim.nTotalReceived = claimedTotal chainstate.m_chain source ∧
        ∀ record : ClaimRecord, chainstate.g_claimindex[source]? = some record →
          record.nTotalReceived = claimedTotal chainstate.m_chain source := by
  constructor
  · intro h
    exact h claim hentry
  · intro h other hother
    obtain rfl : claim = other := Option.some.inj (hentry.symm.trans hother)
    exact h

/-- The totals follow the active chain. -/
def TotalsFollow (chainstate : Chainstate) : Prop := ∀ source, chainstate.FollowsAt source

/-- The call keeps the total of the source in step with the chain.  For a block that is
connected: a payout was recorded for the source, or the entry held none, and a claim
that is new to the pool was not paid before.  For a block that is not connected: nothing
was recorded but payouts of zero.  For a block that is disconnected: it holds no payout
for a claim of the pool. -/
def TipCall.Balanced (env : Env) (source : CScript) (chainstate : Chainstate) : TipCall → Prop
  | .connectTip kernel ctx flushed pindexNew block =>
    let call := Patchcoin.connectTip env kernel ctx flushed pindexNew block chainstate
    let pays := PaysClaim env kernel ctx chainstate.m_chain
      (chainstate.connecting pindexNew block) source
    call.state.1.g_claims.contains source = true →
      (∀ value, pays value → call.result = .ok () ∨ value = 0) ∧
        ((∀ value, ¬ pays value) →
          (call.result = .ok () → pindexNew.nClaims.getD source 0 = 0) ∧
            (chainstate.g_claims[source]? = none → claimedTotal chainstate.m_chain source = 0 ∧
              ∀ record, chainstate.g_claimindex[source]? = some record →
                record.nTotalReceived = 0))
  | .disconnectTip keys flushed block undo =>
    (Patchcoin.disconnectTip env keys flushed block undo chainstate).result = .ok () →
      chainstate.g_claims.contains source = true →
        ∀ tip ∈ chainstate.m_chain.head?, tip.nClaims.getD source 0 = 0

/-! ## Connecting -/

section Connect

variable {kernel : Kernel} {ctx : Circumstances} {flushed : Except BlockFail Unit}
  {pindexNew : CBlockIndex} {block : CBlock} {chainstate : Chainstate}

variable {call : Outcome (Chainstate × CBlockIndex) BlockFail Unit}
    (hcall : connectTip env kernel ctx flushed pindexNew block chainstate = call)
include hcall

/-- The claims are as `ConnectBlock` has left them.  Its entry comes on the chain if the call
succeeds. -/
theorem connectTip_claims :
    let connected := connectBlock env kernel ctx chainstate.m_chain false
      (chainstate.connecting pindexNew block)
    call.state.1.g_claims = connected.state.g_claims ∧
      call.state.1.g_claimindex = connected.state.g_claimindex ∧
      ((call.result = .ok () ∧
          call.state.1.m_chain = connected.state.pindex :: chainstate.m_chain) ∨
        (call.result ≠ .ok () ∧ call.state.1.m_chain = chainstate.m_chain)) := by
  subst hcall
  unfold connectTip
  dsimp only
  split
  · exact ⟨rfl, rfl, .inr ⟨by simp, rfl⟩⟩
  · split
    · exact ⟨rfl, rfl, .inr ⟨by simp, rfl⟩⟩
    · exact ⟨rfl, rfl, .inl ⟨rfl, rfl⟩⟩

variable (hpool : chainstate.g_claims.Sound env)
include hpool

/-- A claim that the block pays. -/
theorem followsAt_of_paysClaim {value : ℤ} (hpays : PaysClaim env kernel ctx chainstate.m_chain
      (chainstate.connecting pindexNew block) source value) :
    call.state.1.FollowsAt source ↔ call.result = .ok () ∨ value = 0 := by
  obtain ⟨hnonneg, claim, -, hclaim, hindex, hentry⟩ :=
    @connectBlock_of_paysClaim env kernel ctx chainstate.m_chain
      (chainstate.connecting pindexNew block) source hpool value hpays
  obtain ⟨hclaims, hcopies, hchain⟩ := connectTip_claims hcall
  have hcopied (record : ClaimRecord) (hrecord : call.state.1.g_claimindex[source]? = some record) :
      record.nTotalReceived = (value.toNat + claimedTotal chainstate.m_chain source : ℕ) := by
    rw [hcopies, hindex] at hrecord
    rw [← Option.some.inj hrecord]
    rfl
  rw [followsAt_iff (by rw [hclaims]; exact hclaim)]
  change ((value.toNat + claimedTotal chainstate.m_chain source : ℕ) : ℤ) = _ ∧ _ ↔ _
  rcases hchain with ⟨hok, hchain⟩ | ⟨hno, hchain⟩
  · rw [hchain, claimedTotal_cons, getD_eq_getD_getElem?, hentry, Option.getD_some]
    exact iff_of_true ⟨rfl, hcopied⟩ (.inl hok)
  · rw [hchain]
    constructor
    · rintro ⟨htotal, -⟩
      right
      omega
    · rintro (hyes | rfl)
      · exact absurd hyes hno
      · rw [Int.toNat_zero, Nat.zero_add] at hcopied ⊢
        exact ⟨rfl, hcopied⟩

variable (hpays : ∀ value, ¬ PaysClaim env kernel ctx chainstate.m_chain
  (chainstate.connecting pindexNew block) source value)
include hpays

theorem nTotalReceived_of_not_paysClaim {claim' : Claim}
    (hentry : call.state.1.g_claims[source]? = some claim') :
    (∃ claim, chainstate.g_claims[source]? = some claim ∧
      claim'.nTotalReceived = claim.nTotalReceived) ∨
    (chainstate.g_claims[source]? = none ∧ claim'.nTotalReceived = 0) := by
  rw [(connectTip_claims hcall).1] at hentry
  obtain ⟨⟨_, _, hgrown, hafter⟩, -, -⟩ := @connectBlock_of_not_paysClaim env kernel ctx
    chainstate.m_chain (chainstate.connecting pindexNew block) source hpool hpays
  rw [hafter] at hentry
  cases hbefore : chainstate.g_claims[source]? with
  | some claim =>
    obtain ⟨claim'', hentry', hforget⟩ := hgrown.kept source claim hbefore
    obtain rfl : claim'' = claim' := Option.some.inj (hentry'.symm.trans hentry)
    have hsame := congrArg Claim.nTotalReceived hforget
    exact .inl ⟨claim, rfl, hsame⟩
  | none =>
    obtain ⟨claim, -, -, hforget⟩ := hgrown.fresh source claim' hentry hbefore
    have hsame := congrArg Claim.nTotalReceived hforget
    have hfresh := (@checkedClaim_fresh env claim).2.2
    exact .inr ⟨rfl, hsame.trans hfresh⟩

/-- A claim that the block does not pay. -/
theorem followsAt_of_not_paysClaim (hbefore : chainstate.FollowsAt source)
    (hcontains : call.state.1.g_claims.contains source = true) : call.state.1.FollowsAt source ↔
      (call.result = .ok () → pindexNew.nClaims.getD source 0 = 0) ∧
      (chainstate.g_claims[source]? = none → claimedTotal chainstate.m_chain source = 0 ∧
        ∀ record, chainstate.g_claimindex[source]? = some record → record.nTotalReceived = 0) := by
  rw [contains_eq_isSome_getElem?] at hcontains
  obtain ⟨claim', hentry⟩ := Option.isSome_iff_exists.mp hcontains
  obtain ⟨-, hindex, hrecord⟩ := @connectBlock_of_not_paysClaim env kernel ctx
    chainstate.m_chain (chainstate.connecting pindexNew block) source hpool hpays
  obtain ⟨-, hcopies, hchain⟩ := connectTip_claims hcall
  have hcopies' : call.state.1.g_claimindex[source]? = chainstate.g_claimindex[source]? :=
    (congrArg (fun index => index[source]?) hcopies).trans hindex
  -- the chain grows by what the entry held before the call
  have hgrows : ∃ grown, claimedTotal call.state.1.m_chain source =
      grown + claimedTotal chainstate.m_chain source ∧
        ((call.result = .ok () → pindexNew.nClaims.getD source 0 = 0) ↔ grown = 0) := by
    rcases hchain with ⟨hok, hchain⟩ | ⟨hno, hchain⟩
    · refine ⟨pindexNew.nClaims.getD source 0, ?_, by simp [hok]⟩
      rw [hchain, claimedTotal_cons, getD_eq_getD_getElem?, hrecord,
        ← getD_eq_getD_getElem?]
      rfl
    · exact ⟨0, by rw [hchain, Nat.zero_add], by simp [hno]⟩
  obtain ⟨grown, htotal, hempty⟩ := hgrows
  rw [followsAt_iff hentry, hcopies', htotal, hempty]
  rcases nTotalReceived_of_not_paysClaim hcall hpool hpays hentry with
    ⟨claim, hold, hsame⟩ | ⟨hnone, hzero⟩
  · obtain ⟨hclaim, hcopy⟩ := hbefore claim hold
    rw [hsame, hclaim]
    constructor
    · rintro ⟨hsum, -⟩
      exact ⟨by omega, fun hnone => by simp [hold] at hnone⟩
    · rintro ⟨rfl, -⟩
      rw [Nat.zero_add]
      exact ⟨rfl, hcopy⟩
  · rw [hzero]
    constructor
    · rintro ⟨hsum, hcopy⟩
      refine ⟨by omega, fun _ => ⟨by omega, fun record hrecord => ?_⟩⟩
      rw [hcopy record hrecord, ← hsum]
    · rintro ⟨rfl, hnew⟩
      obtain ⟨hunpaid, hcopy⟩ := hnew hnone
      rw [hunpaid]
      exact ⟨rfl, hcopy⟩

end Connect

/-! ## Disconnecting -/

section Disconnect

variable {keys : PubKeys} {flushed : Except BlockFail Unit} {block : Option CBlock}
  {undo : List UInt8} {chainstate : Chainstate}

/-- `DisconnectTip` leaves the claims alone.  It takes off the tip if it succeeds. -/
theorem disconnectTip_claims :
    let call := disconnectTip env keys flushed block undo chainstate
    call.state.g_claims = chainstate.g_claims ∧
      call.state.g_claimindex = chainstate.g_claimindex ∧
      ((call.result = .ok () ∧ ∃ tip, chainstate.m_chain = tip :: call.state.m_chain) ∨
        (call.result ≠ .ok () ∧ call.state.m_chain = chainstate.m_chain)) := by
  unfold disconnectTip
  split
  · rename_i tip pprev rest hchain
    split
    · exact ⟨rfl, rfl, .inr ⟨by simp, rfl⟩⟩
    · split_ifs
      · exact ⟨rfl, rfl, .inr ⟨by simp, rfl⟩⟩
      · split
        · split
          · exact ⟨rfl, rfl, .inr ⟨by simp, rfl⟩⟩
          · exact ⟨rfl, rfl, .inl ⟨rfl, tip, hchain⟩⟩
        · exact ⟨rfl, rfl, .inr ⟨by simp, rfl⟩⟩
  · exact ⟨rfl, rfl, .inr ⟨by simp, rfl⟩⟩

theorem followsAt_disconnectTip_iff (hbefore : chainstate.FollowsAt source) :
    (disconnectTip env keys flushed block undo chainstate).state.FollowsAt source ↔
      ((disconnectTip env keys flushed block undo chainstate).result = .ok () →
        chainstate.g_claims.contains source = true →
          ∀ tip ∈ chainstate.m_chain.head?, tip.nClaims.getD source 0 = 0) := by
  obtain ⟨hclaims, hindex, ⟨hok, tip, hchain⟩ | ⟨hno, hchain⟩⟩ :=
    @disconnectTip_claims env keys flushed block undo chainstate
  · have htotal : claimedTotal chainstate.m_chain source = tip.nClaims.getD source 0 +
        claimedTotal (disconnectTip env keys flushed block undo chainstate).state.m_chain
          source := by
      rw [hchain, claimedTotal_cons]
    have hhead : (∀ first ∈ chainstate.m_chain.head?, first.nClaims.getD source 0 = 0) ↔
        tip.nClaims.getD source 0 = 0 := by
      rw [hchain]
      simp
    rw [hhead]
    cases hentry : chainstate.g_claims[source]? with
    | none =>
      refine iff_of_true (fun claim hclaim => ?_) (fun _ hcontains => ?_)
      · rw [hclaims, hentry] at hclaim
        cases hclaim
      · rw [contains_eq_isSome_getElem?, hentry] at hcontains
        cases hcontains
    | some claim =>
      obtain ⟨hclaim, hcopy⟩ := (followsAt_iff hentry).mp hbefore
      have hcontains : chainstate.g_claims.contains source = true := by
        rw [contains_eq_isSome_getElem?, hentry]
        rfl
      rw [followsAt_iff (by rw [hclaims]; exact hentry), hindex]
      constructor
      · rintro ⟨hsame, -⟩ _ _
        omega
      · intro hempty
        have hzero := hempty hok hcontains
        have hsame : claimedTotal chainstate.m_chain source = claimedTotal
            (disconnectTip env keys flushed block undo chainstate).state.m_chain source := by
          omega
        rw [← hsame]
        exact ⟨hclaim, hcopy⟩
  · refine iff_of_true ?_ (fun hok => absurd hok hno)
    unfold Chainstate.FollowsAt at hbefore ⊢
    rwa [hclaims, hindex, hchain]

end Disconnect

/-! ## Runs -/

theorem sound_apply {chainstate : Chainstate} (call : TipCall)
    (h : chainstate.g_claims.Sound env) : (call.apply env chainstate).g_claims.Sound env := by
  cases call with
  | connectTip kernel ctx flushed pindexNew block =>
    rw [TipCall.apply, (connectTip_claims rfl).1]
    have hstart : (chainstate.connecting pindexNew block).g_claims.Sound env := h
    exact hstart.connectBlock
  | disconnectTip keys flushed block undo =>
    rw [TipCall.apply, disconnectTip_claims.1]
    exact h

theorem followsAt_apply_iff {chainstate : Chainstate} (call : TipCall)
    (hpool : chainstate.g_claims.Sound env) (hbefore : chainstate.FollowsAt source) :
    (call.apply env chainstate).FollowsAt source ↔ call.Balanced env source chainstate := by
  cases call with
  | connectTip kernel ctx flushed pindexNew block =>
    rw [TipCall.apply, TipCall.Balanced]
    by_cases hcontains : (connectTip env kernel ctx flushed pindexNew block
        chainstate).state.1.g_claims.contains source = true
    · by_cases hpays : ∃ value, PaysClaim env kernel ctx chainstate.m_chain
          (chainstate.connecting pindexNew block) source value
      · obtain ⟨value, hvalue⟩ := hpays
        rw [followsAt_of_paysClaim rfl hpool hvalue]
        constructor
        · intro h _
          refine ⟨fun other hother => ?_, fun hnone => absurd hvalue (hnone value)⟩
          have hsame := hother.2.symm.trans hvalue.2
          obtain rfl : other = value := by simpa using hsame
          exact h
        · intro h
          exact (h hcontains).1 value hvalue
      · rw [not_exists] at hpays
        rw [followsAt_of_not_paysClaim rfl hpool hpays hbefore hcontains]
        constructor
        · intro h _
          exact ⟨fun value hvalue => absurd hvalue (hpays value), fun _ => h⟩
        · intro h
          exact (h hcontains).2 hpays
    · refine iff_of_true (fun claim hclaim => ?_) (fun h => absurd h hcontains)
      rw [contains_eq_isSome_getElem?, hclaim] at hcontains
      exact absurd rfl hcontains
  | disconnectTip keys flushed block undo => exact followsAt_disconnectTip_iff hbefore

/-- Along a run the total of every claim in the pool follows the records of the chain exactly
if every call is balanced: none of the four ways to write one without the other occurs. -/
theorem totals_follow_iff {chainstate : Chainstate} (hpool : chainstate.g_claims.Sound env)
    (hstart : TotalsFollow chainstate) (calls : List TipCall) :
    Run.Always (TipCall.apply env) TotalsFollow calls chainstate ↔
      Run.Each (TipCall.apply env)
        (fun chainstate call => ∀ source, call.Balanced env source chainstate) calls
        chainstate := by
  refine Run.always_iff_each (I := fun chainstate => chainstate.g_claims.Sound env)
    (fun _ call => sound_apply call) ?_ hpool hstart
  intro state call hsound hfollows
  exact forall_congr' fun source => followsAt_apply_iff call hsound (hfollows source)

namespace SmallNet

theorem totalsFollow_of_isEmpty {state : Chainstate} (h : state.g_claims.isEmpty = true) :
    TotalsFollow state := by
  intro source claim hentry
  have hempty : state.g_claims = ∅ := isEmpty_iff.mp h
  rw [hempty] at hentry
  cases hentry

theorem getD_of_isEmpty {pindex : CBlockIndex} (h : pindex.nClaims.isEmpty = true)
    (source : CScript) : pindex.nClaims.getD source 0 = 0 := by
  have hempty : pindex.nClaims = ∅ := isEmpty_iff.mp h
  rw [hempty, getD_empty]

/-- The first block that pays anything, on a chain without records. -/
theorem balanced_of_no_records {state : Chainstate} {pindexNew : CBlockIndex} {block : CBlock}
    (hchain : ∀ pindex ∈ state.m_chain, pindex.nClaims.isEmpty = true)
    (hindex : state.g_claimindex.isEmpty = true) (hentry : pindexNew.nClaims.isEmpty = true)
    (hok : (connectTip env stakeKernel ordinary (.ok ()) pindexNew block state).result = .ok ())
    (source : CScript) : TipCall.Balanced env source state
      (.connectTip stakeKernel ordinary (.ok ()) pindexNew block) := by
  refine fun _ => ⟨fun _ _ => .inl hok, fun _ => ⟨fun _ => getD_of_isEmpty hentry source,
    fun _ => ⟨?_, fun record hrecord => ?_⟩⟩⟩
  · unfold claimedTotal
    rw [List.sum_eq_zero_iff]
    intro amount hamount
    obtain ⟨pindex, hmem, rfl⟩ := List.mem_map.mp hamount
    exact getD_of_isEmpty (hchain pindex hmem) source
  · have hempty : state.g_claimindex = ∅ := isEmpty_iff.mp hindex
    rw [hempty] at hrecord
    cases hrecord

theorem sound_chainstate (env : Env) (blocks : List CBlock) :
    (chainstate env blocks).g_claims.Sound env := sound_reach env blocks

/-- Connect the block that pays a claim. -/
def paySnapshot : TipCall :=
  .connectTip stakeKernel ordinary (.ok ()) (second (node false false) snapshotBlock).pindex
    snapshotBlock

/-- Take the block back, with the undo data it was written with. -/
def takeBack : TipCall :=
  .disconnectTip SmallNet.keys (.ok ()) (some snapshotBlock)
    (undoWriteToDisk SmallNet.keys hash256 (parentHash (genesisChain (node false false)))
      (undoOf (node false false) (second (node false false) snapshotBlock).pindex
        (second (node false false) snapshotBlock).view snapshotBlock.vtx))

end SmallNet

open SmallNet in
theorem totals_follow_paySnapshot :
    Run.Always (TipCall.apply (node false false)) TotalsFollow [paySnapshot]
      (chainstate (node false false) [genesisBlock]) := by
  have hstart : TotalsFollow (chainstate (node false false) [genesisBlock]) :=
    totalsFollow_of_isEmpty (by decide +kernel)
  refine (totals_follow_iff (sound_chainstate _ _) hstart [paySnapshot]).mpr ⟨?_, trivial⟩
  exact balanced_of_no_records (by decide +kernel) (by decide +kernel) (by decide +kernel)
    (passed_iff.mp (by decide +kernel))

open SmallNet in
/-- The payout of a block that was taken back still counts. -/
theorem disconnected_payout_counts : TotalsFollow (chainstate (node false false) [genesisBlock]) ∧
      ((Run.after (TipCall.apply (node false false)) [paySnapshot, takeBack]
        (chainstate (node false false) [genesisBlock])).g_claims[payToKeyHash 1]?.map
          Claim.nTotalReceived = some 10000000) ∧
      claimedTotal (Run.after (TipCall.apply (node false false)) [paySnapshot, takeBack]
        (chainstate (node false false) [genesisBlock])).m_chain (payToKeyHash 1) = 0 :=
  ⟨totalsFollow_of_isEmpty (by decide +kernel), by decide +kernel, by decide +kernel⟩

end Patchcoin
