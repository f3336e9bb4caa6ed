import Patchcoin.Chain.Connect
import Patchcoin.Consensus.Payouts

/-!
# What the steps of `connectBlock` can do

The transaction loop touches the claims in one place, the call of
`checkClaims`, and the coins in one place, the call of `updateCoins`.  The
statements here say so, once for a single transaction and once for the whole
loop, and then say what `recordBlock` writes down from a loop that has passed.
-/

namespace Patchcoin

open Outcome

variable {env : Env} {kernel : Kernel} {ctx : Circumstances} {pindex : CBlockIndex}
  {ancestors : IndexChain} {block : CBlock} {tx : CTransaction} {st : TxLoop}
variable {txs : List CTransaction}

/-! ## One transaction -/

/-- The claims and the coins are the same; the sums may differ. -/
def TxLoop.SameClaims (st st' : TxLoop) : Prop :=
  st'.toClaimState = st.toClaimState ∧ st'.view = st.view

theorem addValueOut_sameClaims (tx : CTransaction) (st : TxLoop) :
    st.SameClaims (addValueOut tx st).state := by
  unfold addValueOut
  split
  · exact ⟨rfl, rfl⟩
  · exact ⟨rfl, rfl⟩

theorem connectAmounts_sameClaims (txfee : ℤ) (st : TxLoop) :
    st.SameClaims (connectAmounts env pindex ancestors tx txfee st).state := by
  refine andThen_invariant (P := fun next => st.SameClaims next) ?_ ?_
  · exact addValueOut_sameClaims tx _
  · intro _ _ hnext
    dsimp only
    split_ifs
    · exact hnext
    · split
      · exact hnext
      · exact hnext
      · exact hnext
    · exact hnext
    · split
      · exact hnext
      · exact hnext
      · exact hnext

theorem connectScripts_sameClaims (tx : CTransaction) (st : TxLoop) :
    st.SameClaims (connectScripts env ctx ancestors tx st).state := by
  unfold connectScripts
  dsimp only
  split
  · exact ⟨rfl, rfl⟩
  · split
    · exact ⟨rfl, rfl⟩
    · split
      · exact ⟨rfl, rfl⟩
      · split <;> exact ⟨rfl, rfl⟩

/-- The state of the claims after the call of `checkClaims` in the loop, if there is one. -/
def claimsAfter (env : Env) (pindex : CBlockIndex) (ancestors : IndexChain) (block : CBlock)
    (tx : CTransaction) (view : CCoinsView) (claims : ClaimState) : ClaimState :=
  if tx.isCoinBase then claims
  else match checkTxInputs env view tx pindex.nHeight (txTime tx block) with
    | .error _ => claims
    | .ok _ =>
      (checkClaims env ancestors view tx (txTime tx block) block.vClaim claims).state

theorem connectClaims_eq (st : TxLoop) : connectClaims env ancestors block tx st =
    ⟨{ st with toClaimState := (checkClaims env ancestors st.view tx (txTime tx block) block.vClaim
        st.toClaimState).state },
      match (checkClaims env ancestors st.view tx (txTime tx block) block.vClaim
        st.toClaimState).result with
      | .error failure => .error failure.toBlockFail
      | .ok () => .ok ()⟩ := by
  unfold connectClaims
  dsimp only
  cases (checkClaims env ancestors st.view tx (txTime tx block) block.vClaim
    st.toClaimState).result with
  | error failure => rfl
  | ok value => rfl

theorem connectInputs_state (st : TxLoop) :
    (connectInputs env pindex ancestors block tx st).state.toClaimState =
        claimsAfter env pindex ancestors block tx st.view st.toClaimState ∧
      (connectInputs env pindex ancestors block tx st).state.view = st.view := by
  unfold connectInputs claimsAfter
  split_ifs with hcoinbase
  · exact addValueOut_sameClaims tx st
  · cases hinputs : checkTxInputs env st.view tx pindex.nHeight (txTime tx block) with
    | error failure => exact ⟨rfl, rfl⟩
    | ok txfee =>
      rw [connectClaims_eq]
      refine andThen_invariant (P := fun next : TxLoop => next.toClaimState =
        (checkClaims env ancestors st.view tx (txTime tx block) block.vClaim
          st.toClaimState).state ∧ next.view = st.view) ⟨rfl, rfl⟩ ?_
      intro _ _ hnext
      obtain ⟨hclaims, hview⟩ := @connectAmounts_sameClaims env pindex ancestors tx txfee
        { st with toClaimState := (checkClaims env ancestors st.view tx (txTime tx block)
            block.vClaim st.toClaimState).state }
      exact ⟨hclaims.trans hnext.1, hview.trans hnext.2⟩

/-- What a transaction does to the claims, whether it passes or not. -/
theorem toClaimState_connectTx (st : TxLoop) :
    (connectTx env ctx pindex ancestors block tx st).state.toClaimState =
      claimsAfter env pindex ancestors block tx st.view st.toClaimState := by
  refine andThen_invariant (P := fun next : TxLoop => next.toClaimState =
    claimsAfter env pindex ancestors block tx st.view st.toClaimState)
    (connectInputs_state st).1 ?_
  intro _ _ hinputs
  refine andThen_invariant (P := fun next : TxLoop => next.toClaimState =
    claimsAfter env pindex ancestors block tx st.view st.toClaimState)
    ((connectScripts_sameClaims tx _).1.trans hinputs) ?_
  intro _ _ hscripts
  unfold connectCoins
  split
  · exact hscripts
  · exact hscripts

theorem addValueOut_of_ok (h : (addValueOut tx st).result = .ok ()) :
    ∃ value, tx.getValueOut = some value := by
  unfold addValueOut at h
  cases hvalue : tx.getValueOut with
  | none => rw [hvalue] at h; exact absurd h (by simp)
  | some value => exact ⟨value, rfl⟩

theorem connectInputs_of_ok (h : (connectInputs env pindex ancestors block tx st).result = .ok ()) :
    (∃ value, tx.getValueOut = some value) ∧
      (tx.isCoinBase = false →
        (∃ txfee, checkTxInputs env st.view tx pindex.nHeight (txTime tx block) = .ok txfee) ∧
        (checkClaims env ancestors st.view tx (txTime tx block) block.vClaim
          st.toClaimState).result = .ok ()) := by
  unfold connectInputs at h
  split_ifs at h with hcoinbase
  · exact ⟨addValueOut_of_ok h, fun hnot => absurd hcoinbase (by simp [hnot])⟩
  · cases hinputs : checkTxInputs env st.view tx pindex.nHeight (txTime tx block) with
    | error failure => rw [hinputs] at h; exact absurd h (by simp)
    | ok txfee =>
      rw [hinputs] at h
      obtain ⟨⟨⟩, hclaims, hamounts⟩ := andThen_eq_ok_iff.mp h
      obtain ⟨⟨⟩, hvalue, -⟩ := andThen_eq_ok_iff.mp hamounts
      refine ⟨addValueOut_of_ok hvalue, fun _ => ⟨⟨txfee, rfl⟩, ?_⟩⟩
      rw [connectClaims_eq] at hclaims
      cases hresult : (checkClaims env ancestors st.view tx (txTime tx block) block.vClaim
          st.toClaimState).result with
      | error failure => rw [hresult] at hclaims; exact absurd hclaims (by simp)
      | ok value => rfl

theorem connectCoins_of_ok (h : (connectCoins env pindex tx st).result = .ok ()) :
    st.view.updateCoins env.host.hash256 tx pindex.nHeight
      (isProtocolV12 env.params pindex.nTime.toNat) =
      .ok (connectCoins env pindex tx st).state.view := by
  unfold connectCoins at h ⊢
  cases hview : st.view.updateCoins env.host.hash256 tx pindex.nHeight
      (isProtocolV12 env.params pindex.nTime.toNat) with
  | error failure => rw [hview] at h; exact absurd h (by simp)
  | ok view => rfl

/-- What has been tested when a transaction passes, and what it does to the coins. -/
theorem connectTx_of_ok (h : (connectTx env ctx pindex ancestors block tx st).result = .ok ()) :
    st.view.updateCoins env.host.hash256 tx pindex.nHeight
        (isProtocolV12 env.params pindex.nTime.toNat) =
        .ok (connectTx env ctx pindex ancestors block tx st).state.view ∧
      (∃ value, tx.getValueOut = some value) ∧
      (tx.isCoinBase = false →
        (∃ txfee, checkTxInputs env st.view tx pindex.nHeight (txTime tx block) = .ok txfee) ∧
        (checkClaims env ancestors st.view tx (txTime tx block) block.vClaim
          st.toClaimState).result = .ok ()) := by
  unfold connectTx at h ⊢
  obtain ⟨⟨⟩, hinputs, hrest⟩ := andThen_eq_ok_iff.mp h
  obtain ⟨⟨⟩, hscripts, hcoins⟩ := andThen_eq_ok_iff.mp hrest
  rw [andThen_of_ok hinputs, andThen_of_ok hscripts]
  refine ⟨?_, connectInputs_of_ok hinputs⟩
  have hview : (connectScripts env ctx ancestors tx
      (connectInputs env pindex ancestors block tx st).state).state.view = st.view :=
    (connectScripts_sameClaims tx _).2.trans (connectInputs_state st).2
  rw [← connectCoins_of_ok hcoins, hview]

/-! ## The transaction loop -/

/-- The transactions of a block, each with the coins that it sees. -/
def blockViews (env : Env) (pindex : CBlockIndex) :
    CCoinsView → List CTransaction → List (CTransaction × CCoinsView)
  | _, [] => []
  | view, tx :: rest =>
    (tx, view) ::
      match view.updateCoins env.host.hash256 tx pindex.nHeight
          (isProtocolV12 env.params pindex.nTime.toNat) with
      | .ok view => blockViews env pindex view rest
      | .error _ => []

/-- The rule for a transaction loop that has passed: `P` is an invariant, and `Q` is
established by every transaction, from the coins it saw, and kept by the others. -/
theorem connectTx_forall {P : TxLoop → Prop} {Q : CTransaction × CCoinsView → TxLoop → Prop}
    (hstep : ∀ tx ∈ txs, ∀ st : TxLoop, P st →
      (connectTx env ctx pindex ancestors block tx st).result = .ok () →
      P (connectTx env ctx pindex ancestors block tx st).state ∧
        Q (tx, st.view) (connectTx env ctx pindex ancestors block tx st).state ∧
        ∀ other, Q other st →
          Q other (connectTx env ctx pindex ancestors block tx st).state) {st : TxLoop}
    (hst : P st) (hok : (forEach (connectTx env ctx pindex ancestors block) txs st).result =
      .ok ()) :
    P (forEach (connectTx env ctx pindex ancestors block) txs st).state ∧
      (∀ entry ∈ blockViews env pindex st.view txs, Q entry
        (forEach (connectTx env ctx pindex ancestors block) txs st).state) ∧
      ∀ other, Q other st → Q other
        (forEach (connectTx env ctx pindex ancestors block) txs st).state := by
  induction txs generalizing st with
  | nil => exact ⟨hst, by simp [blockViews], fun _ h => h⟩
  | cons tx rest ih =>
    obtain ⟨hfirst, hrest⟩ := forEach_cons_eq_ok_iff.mp hok
    obtain ⟨hP, hQ, hkeep⟩ := hstep tx (.head _) st hst hfirst
    obtain ⟨hPend, hall, hkeepEnd⟩ := ih (fun other hother => hstep other (.tail _ hother)) hP hrest
    rw [state_forEach_cons_of_ok hfirst]
    refine ⟨hPend, ?_, fun other h => hkeepEnd other (hkeep other h)⟩
    intro entry hentry
    rw [blockViews, (connectTx_of_ok hfirst).1] at hentry
    rcases List.mem_cons.mp hentry with rfl | hmem
    · exact hkeepEnd _ hQ
    · exact hall entry hmem

/-- The rule for properties of the claims: what `checkClaims` keeps, the loop keeps. -/
theorem connectTxs_claims {P : ClaimState → Prop} (hstep : ∀ tx view claims, P claims →
      P (checkClaims env ancestors view tx (txTime tx block) block.vClaim claims).state)
    (h : P st.toClaimState) : P (forEach (connectTx env ctx pindex ancestors block) txs
      st).state.toClaimState := by
  refine forEach_invariant (P := fun st : TxLoop => P st.toClaimState) ?_ h
  intro tx _ st hst
  rw [toClaimState_connectTx]
  unfold claimsAfter
  split
  · exact hst
  · split
    · exact hst
    · exact hstep tx _ _ hst

/-! ## The payouts of the loop -/

/-- The invariant of the payouts, in the transaction loop: the amounts are those of
outputs in range. -/
structure PaidLoop (env : Env) (ancestors : IndexChain) (st : TxLoop) : Prop where
  paid : PaidState env ancestors st.toClaimState
  range : ∀ (source : CScript) (payout : CScript × ℤ), st.claims[source]? = some payout →
    moneyRange payout.2 = true

/-- The outputs of a transaction of a block with claims are settled. -/
def TxSettled (env : Env) (block : CBlock) (entry : CTransaction × CCoinsView) (st : TxLoop) :
    Prop :=
  entry.1.isCoinBase = false → block.vClaim ≠ [] →
    ∀ txout ∈ entry.1.vout, Settled env txout st.toClaimState

theorem PaidLoop.connectTx (h : PaidLoop env ancestors st)
    (hok : (connectTx env ctx pindex ancestors block tx st).result = .ok ()) :
    PaidLoop env ancestors (connectTx env ctx pindex ancestors block tx st).state ∧
      st.toClaimState.Keeps
        (connectTx env ctx pindex ancestors block tx st).state.toClaimState ∧
      TxSettled env block (tx, st.view)
        (connectTx env ctx pindex ancestors block tx st).state := by
  obtain ⟨-, ⟨total, htotal⟩, hpassed⟩ := connectTx_of_ok hok
  have hstate := @toClaimState_connectTx env ctx pindex ancestors block tx st
  unfold claimsAfter at hstate
  cases hcoinbase : tx.isCoinBase with
  | true =>
    rw [hcoinbase, if_pos rfl] at hstate
    refine ⟨⟨?_, ?_⟩, ?_, fun hnot => absurd hnot (by simp [hcoinbase])⟩
    · rw [hstate]
      exact h.paid
    · rw [hstate]
      exact h.range
    · rw [hstate]
      exact .refl _
  | false =>
    obtain ⟨⟨txfee, hinputs⟩, hclaims⟩ := hpassed hcoinbase
    rw [hcoinbase, if_neg Bool.false_ne_true, hinputs] at hstate
    obtain ⟨hpaid, hkeeps, hsettled⟩ := h.paid.checkClaims hclaims
    refine ⟨⟨?_, ?_⟩, ?_, fun _ hne => ?_⟩
    · rw [hstate]
      exact hpaid
    · intro source payout hentry
      rw [hstate] at hentry
      rcases claims_checkClaims_cases hentry with hold | ⟨txout, hmem, hvalue⟩
      · exact h.range source payout hold
      · rw [hvalue]
        exact CTransaction.moneyRange_of_getValueOut htotal txout hmem
    · rw [hstate]
      exact hkeeps
    · rw [hstate]
      exact hsettled hne

/-- The transaction loop of a block, from a sound pool: the payouts are checked, and
every output of a block with claims is settled. -/
theorem paidLoop_of_ok {start : ConnectState} (hpool : start.g_claims.Sound env)
    (hok : (connectLoop env ctx ancestors start).result = .ok ()) :
    PaidLoop env ancestors (connectLoop env ctx ancestors start).state ∧
      ∀ entry ∈ blockViews env start.pindex start.view start.block.vtx,
        TxSettled env start.block entry (connectLoop env ctx ancestors start).state := by
  have hstart : PaidLoop env ancestors
      { g_claims := start.g_claims, claims := ∅, queued_claims := [], view := start.view } :=
    ⟨⟨hpool, by simp⟩, by simp⟩
  obtain ⟨hpaid, hsettled, -⟩ := connectTx_forall (P := PaidLoop env ancestors)
    (Q := TxSettled env start.block) (fun tx _ st hst hstep => by
      obtain ⟨hpaid, hkeeps, hsettled⟩ := hst.connectTx hstep
      exact ⟨hpaid, hsettled, fun other hother hcoinbase hne txout hmem =>
        (hother hcoinbase hne txout hmem).of_keeps hkeeps⟩) hstart hok
  exact ⟨hpaid, hsettled⟩

end Patchcoin
