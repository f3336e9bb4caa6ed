import Mathlib.Data.Prod.Lex
import Patchcoin.SmallMint

/-!
# Whether the loop over the attempts ends

An attempt is repeated if the fee was too small or if an output did not fit into a thousand
bytes.  The fee cannot be raised for ever, as no fee is above the limit on money.  An output
that does not fit lowers `maxOutputs`, and a split then makes fewer outputs.  So the loop of a
split ends: each attempt lowers the pair of `maxOutputs` and the distance of the fee from the
limit (`ends_split`).

A coinstake of the genesis key does not look at `maxOutputs`.  If its payouts and its change
are too large together, the next attempt makes the same outputs, and the next one again.  Its
loop ends exactly if the attempts for which everything does not fit stop at some time
(`outputLoop_ends_iff`).

If the signatures have a fixed size, the first two attempts decide.  The second one has the fee
that the signed coinstake of the first one needs.  If its outputs do not fit, the fee of every
later attempt is that of a coinstake without payouts, and the attempts repeat themselves
(`genesis_ends_iff`).
-/

namespace Patchcoin

open StakePlan

variable {env : Env} {wallet : CWallet} {plan : StakePlan}

/-! ## The outputs without the limit -/

/-- A transaction does not get smaller with more outputs. -/
theorem StakePlan.txSize_le_append (vin : List CTxIn) (vout more : List CTxOut) :
    txSize (plan.txNew vin vout) ≤ txSize (plan.txNew vin (vout ++ more)) := by
  have hle := @PrefixCode.length_lengthPrefixed_le_append _ serTxOut vout more
  unfold txSize serializeTransaction txNew CTransaction.hasWitness serTxVersion
  simp only [List.length_append]
  omega

theorem StakePlan.tooLarge_eq_false_iff {vin : List CTxIn} {vout : List CTxOut} :
    plan.tooLarge vin vout = false ↔ txSize (plan.txNew vin vout) ≤ 1000 := by
  unfold tooLarge
  rw [decide_eq_false_iff_not, not_lt]

theorem StakePlan.tooLarge_append {vin : List CTxIn} {vout : List CTxOut} (more : List CTxOut)
    (h : plan.tooLarge vin vout = true) : plan.tooLarge vin (vout ++ more) = true := by
  have hsize := plan.txSize_le_append vin vout more
  rw [← Bool.not_eq_false, tooLarge_eq_false_iff] at h ⊢
  omega

namespace StakePlan

variable {claim : Claim} {current : ℤ}

/-- The payouts to claims without a limit on the size, and what is left of the credit. -/
def allPayouts (env : Env) (wallet : CWallet) : List Claim → ℤ → List CTxOut × ℤ
  | [], current => ([], current)
  | claim :: rest, current =>
    match wallet.calculateReceived claim.getTarget with
    | none => allPayouts env wallet rest current
    | some nTotalReceived =>
      if (claim.isValid env).2 ≠ .OK ∨ current ≤ 0 ∨
          claim.getEligible env ≤ nTotalReceived then
        allPayouts env wallet rest current
      else
        let amount := min current (claim.getEligible env - nTotalReceived)
        let later := allPayouts env wallet rest (current - amount)
        (amountOut amount claim.getTarget :: later.1, later.2)

/-- The outputs that an attempt of the genesis key is to have: the payouts and the change. -/
def wholeOutputs (env : Env) (wallet : CWallet) (plan : StakePlan) (st : StakeLoop) : List CTxOut :=
  let payouts := allPayouts env wallet plan.claims (plan.nCredit - st.nMinFee)
  (plan.startPayouts env st).vout ++ payouts.1 ++
    if 0 < payouts.2 then [amountOut payouts.2 env.params.genesisPubKey] else []

theorem allPayouts_of_skips (h : Skips env wallet claim current) (rest : List Claim) :
    allPayouts env wallet (claim :: rest) current = allPayouts env wallet rest current := by
  rw [allPayouts]
  cases hreceived : wallet.calculateReceived claim.getTarget with
  | none => rfl
  | some nTotalReceived =>
    dsimp only
    rw [if_pos]
    cases h with
    | invalid hinvalid => exact .inl hinvalid
    | exhausted hcurrent => exact .inr (.inl hcurrent)
    | paid hpaid hle =>
      rw [hreceived] at hpaid
      cases hpaid
      exact .inr (.inr hle)

theorem allPayouts_of_paysOut {amount : ℤ} (h : PaysOut env wallet claim current amount)
    (rest : List Claim) : allPayouts env wallet (claim :: rest) current =
      (amountOut amount claim.getTarget :: (allPayouts env wallet rest (current - amount)).1,
        (allPayouts env wallet rest (current - amount)).2) := by
  obtain ⟨nTotalReceived, hreceived, hlacks, rfl⟩ := h.lacks
  have hcurrent := h.current_pos
  rw [allPayouts, hreceived]
  dsimp only
  rw [if_neg]
  rintro (hinvalid | hle | hle)
  · exact hinvalid h.valid
  · omega
  · omega

/-- The loop over the claims makes all the payouts, or it finds that some of them are too
large together. -/
theorem payClaims_all {vin : List CTxIn} {claims : List Claim} {st paid : PayoutLoop}
    (hst : st.outputsOk = true) (h : plan.payClaims env wallet vin claims st = .ok paid) :
    (paid.outputsOk = true ∧ paid.vout = st.vout ++ (allPayouts env wallet claims st.current).1 ∧
        paid.current = (allPayouts env wallet claims st.current).2) ∨
      paid.outputsOk = false ∧
        plan.tooLarge vin (st.vout ++ (allPayouts env wallet claims st.current).1) = true := by
  induction claims generalizing st with
  | nil =>
    rw [payClaims] at h
    cases h
    exact .inl ⟨hst, (List.append_nil _).symm, rfl⟩
  | cons claim rest ih =>
    obtain ⟨hskips, hrest⟩ | ⟨amount, hpays, hpaid⟩ := payClaims_cons_cases h
    · rw [allPayouts_of_skips hskips]
      exact ih hst hrest
    · rw [allPayouts_of_paysOut hpays]
      have hpay : st.vout ++ amountOut amount claim.getTarget ::
          (allPayouts env wallet rest (st.current - amount)).1 =
          (st.pay claim amount).vout ++
            (allPayouts env wallet rest (st.pay claim amount).current).1 := by
        rw [List.append_cons]
        rfl
      rw [hpay]
      obtain ⟨hlarge, rfl⟩ | ⟨-, hrest⟩ := hpaid
      · exact .inr ⟨rfl, plan.tooLarge_append _ hlarge⟩
      · exact ih hst hrest

/-- If an output does not fit, the payouts and the change are too large together. -/
theorem tooLarge_of_outputsOk_false {st : StakeLoop} {outputs : StakeOutputs}
    (h : plan.genesisOutputs env wallet st = .ok outputs) (hlimit : outputs.outputsOk = false) :
    plan.tooLarge st.vin (plan.wholeOutputs env wallet st) = true := by
  obtain ⟨-, paid, hpaid, -, hchange⟩ := genesisOutputs_cases h
  have hall := payClaims_all rfl hpaid
  have hcurrent : (plan.startPayouts env st).current = plan.nCredit - st.nMinFee := rfl
  rw [hcurrent] at hall
  unfold wholeOutputs
  dsimp only
  generalize allPayouts env wallet plan.claims (plan.nCredit - st.nMinFee) = payouts at hall ⊢
  obtain ⟨hok, hvout, hleft⟩ | ⟨-, hlarge⟩ := hall
  · -- all payouts fit, so it is the change that does not
    obtain ⟨-, -, hsame⟩ | ⟨hpos, ⟨hlarge, -, -⟩ | ⟨-, -, hsame⟩⟩ := hchange
    · rw [hok, hlimit] at hsame
      cases hsame
    · rw [← hvout, ← hleft, if_pos hpos]
      exact hlarge
    · rw [hok, hlimit] at hsame
      cases hsame
  · exact plan.tooLarge_append _ hlarge

end StakePlan

variable {next st : StakeLoop} {outputs : StakeOutputs}

/-! ## A split -/

/-- The limit on the outputs, then how far the fee is from the limit on money. -/
def splitRank (st : StakeLoop) : ℕ ×ₗ ℕ :=
  toLex (st.maxOutputs.toNat, (MAX_MONEY - st.nMinFee).toNat)

/-- An attempt whose outputs fit is repeated only with a higher fee. -/
theorem nMinFee_lt_of_again (hagain : plan.attempt env wallet st = .again next)
    (houtputs : plan.stakeOutputs env wallet st = .ok outputs) (hok : outputs.outputsOk = true) :
    st.nMinFee < next.nMinFee ∧ next.nMinFee ≤ MAX_MONEY := by
  obtain ⟨_, vin, houtputs', -, rfl, hcause⟩ := attempt_of_again hagain
  rw [houtputs] at houtputs'
  cases houtputs'
  refine ⟨hcause.resolve_right ?_, nNeededFee_le _⟩
  rw [hok]
  exact Bool.true_eq_false_eq_False

theorem splitRank_lt_of_again (hheld : plan.genesis_key_held = false) (hmax : 1 ≤ st.maxOutputs)
    (hagain : plan.attempt env wallet st = .again next) :
    1 ≤ next.maxOutputs ∧ splitRank next < splitRank st := by
  obtain ⟨outputs, vin, houtputs, -, hnext, -⟩ := attempt_of_again hagain
  have hmaxOutputs : next.maxOutputs = outputs.maxOutputs := by rw [hnext]
  obtain ⟨hone, hcases⟩ := stakeOutputs_maxOutputs hheld hmax houtputs
  refine ⟨hmaxOutputs ▸ hone, ?_⟩
  unfold splitRank
  rw [Prod.Lex.toLex_lt_toLex, hmaxOutputs]
  obtain ⟨hok, hsame⟩ | ⟨-, hless⟩ := hcases
  · obtain ⟨hfee, hle⟩ := nMinFee_lt_of_again hagain houtputs hok
    rw [hsame]
    exact .inr ⟨rfl, by omega⟩
  · exact .inl (by dsimp only; omega)

/-- The loop of a split ends. -/
theorem ends_split (hheld : plan.genesis_key_held = false) (hmax : 1 ≤ st.maxOutputs) :
    Loop.Ends (plan.attempt env wallet) st := by
  apply Loop.ends_of_wellFounded (InvImage.wf splitRank wellFounded_lt)
    (I := fun st => 1 ≤ st.maxOutputs)
  · intro st next hst hagain
    exact splitRank_lt_of_again hheld hst hagain
  · exact hmax

/-! ## The genesis key -/

/-- If the outputs of no attempt are too large from some attempt on, the loop ends. -/
theorem ends_of_fits {start : StakeLoop} (m : ℕ)
    (hfits : ∀ k st, m ≤ k → Loop.before (plan.attempt env wallet) k start = some st →
      ∀ outputs, plan.stakeOutputs env wallet st = .ok outputs → outputs.outputsOk = true) :
    Loop.Ends (plan.attempt env wallet) start := by
  cases hm : Loop.before (plan.attempt env wallet) m start with
  | none => exact Loop.ends_iff_before.mpr ⟨m, hm⟩
  | some reached =>
    rw [Loop.ends_iff_of_before hm]
    apply Loop.ends_of_wellFounded
      (InvImage.wf (fun st : StakeLoop => (MAX_MONEY - st.nMinFee).toNat) wellFounded_lt)
      (I := fun st => ∃ k, m ≤ k ∧ Loop.before (plan.attempt env wallet) k start = some st)
    · rintro st next ⟨k, hk, hst⟩ hagain
      have hnext := Loop.before_succ hst
      rw [hagain] at hnext
      refine ⟨⟨k + 1, by omega, hnext⟩, ?_⟩
      show (MAX_MONEY - next.nMinFee).toNat < (MAX_MONEY - st.nMinFee).toNat
      obtain ⟨outputs, -, houtputs, -⟩ := attempt_of_again hagain
      obtain ⟨hfee, hle⟩ := nMinFee_lt_of_again hagain houtputs (hfits k st hk hst outputs houtputs)
      omega
    · exact ⟨m, le_rfl, hm⟩

/-- The loop ends for every kernel of another key.  For a kernel of the genesis key it ends
exactly if from some attempt on the payouts and the change are not too large together. -/
theorem outputLoop_ends_iff (env : Env) (wallet : CWallet) (plan : StakePlan) (vin : List CTxIn) :
    Loop.Ends (plan.attempt env wallet) { vin } ↔ plan.genesis_key_held = false ∨
      ∃ m, ∀ k ≥ m, ∀ st, Loop.before (plan.attempt env wallet) k { vin } = some st →
        plan.tooLarge st.vin (plan.wholeOutputs env wallet st) = false := by
  constructor
  · intro hends
    obtain ⟨m, hm⟩ := Loop.ends_iff_before.mp hends
    refine .inr ⟨m, ?_⟩
    intro k hk st hst
    rw [Loop.before_none_mono hk hm] at hst
    cases hst
  · rintro (hheld | ⟨m, hfits⟩)
    · exact ends_split hheld (by decide : (1 : ℤ) ≤ 30)
    · cases hheld : plan.genesis_key_held with
      | false => exact ends_split hheld (by decide : (1 : ℤ) ≤ 30)
      | true =>
        refine ends_of_fits m fun k st hk hst outputs houtputs => ?_
        unfold stakeOutputs at houtputs
        rw [hheld, if_pos rfl] at houtputs
        rw [← Bool.not_eq_false]
        intro hlimit
        have hlarge := tooLarge_of_outputsOk_false houtputs hlimit
        rw [hfits k hk st hst] at hlarge
        cases hlarge

/-! ## Signatures of a fixed size -/

namespace StakePlan

/-- The outputs before any payout. -/
def baseOutputs (env : Env) (plan : StakePlan) : List CTxOut :=
  (plan.startPayouts env { vin := [] }).vout

/-- The signed coinstake with all the payouts and the change that a fee leaves has at most a
thousand bytes. -/
def FitsFor (env : Env) (wallet : CWallet) (plan : StakePlan) (signed : List CTxIn)
    (nMinFee : ℤ) : Prop :=
  plan.tooLarge signed (plan.wholeOutputs env wallet { vin := signed, nMinFee }) = false

/-- Every attempt is signed, with as many bytes as `signed` has.  The totals of the claims are
known, and the fee follows the size. -/
structure FixedSizes (env : Env) (wallet : CWallet) (plan : StakePlan) (vin signed : List CTxIn) :
    Prop where
  sign : ∀ attempt tx, ∃ scripts, wallet.sign attempt tx = some scripts ∧ ∀ vout,
    txSize (plan.txNew (signedInputs vin scripts) vout) = txSize (plan.txNew signed vout)
  unsigned_le : ∀ vout, txSize (plan.txNew vin vout) ≤ txSize (plan.txNew signed vout)
  received : ∀ claim ∈ plan.claims, ∃ nTotalReceived,
    wallet.calculateReceived claim.getTarget = some nTotalReceived ∧
      moneyRange nTotalReceived = true
  credit : moneyRange plan.nCredit = true
  v07 : isProtocolV07 env.params plan.nTime.toNat = true

/-- The outputs of an attempt of the genesis key: there is no credit, everything fits, or
some outputs were dropped. -/
inductive Makes (env : Env) (wallet : CWallet) (plan : StakePlan) (st : StakeLoop)
    (outputs : StakeOutputs) : Prop
  | nothing (hcredit : plan.nCredit = st.nMinFee) (hok : outputs.outputsOk = true)
      (hvout : outputs.vout = plan.wholeOutputs env wallet st)
      (hbase : outputs.vout = plan.baseOutputs env)
  | everything (hfits : plan.tooLarge st.vin (plan.wholeOutputs env wallet st) = false)
      (hok : outputs.outputsOk = true) (hvout : outputs.vout = plan.wholeOutputs env wallet st)
  | part (hlarge : plan.tooLarge st.vin (plan.wholeOutputs env wallet st) = true)
      (hok : outputs.outputsOk = false) (hcredit : st.nMinFee < plan.nCredit)
      (hbase : plan.baseOutputs env <+: outputs.vout)
      (hvout : outputs.vout = plan.baseOutputs env ∨ plan.tooLarge st.vin outputs.vout = false)

theorem payClaims_isOk {vin : List CTxIn} {claims : List Claim} {st : PayoutLoop}
    (hreceived : ∀ claim ∈ claims, ∃ nTotalReceived,
      wallet.calculateReceived claim.getTarget = some nTotalReceived ∧
        moneyRange nTotalReceived = true)
    (hcurrent : moneyRange st.current = true) :
    ∃ paid, plan.payClaims env wallet vin claims st = .ok paid := by
  induction claims generalizing st with
  | nil => exact ⟨st, rfl⟩
  | cons claim rest ih =>
    obtain ⟨⟨nTotalReceived, hknown, hrange⟩, hrest⟩ := List.forall_mem_cons.mp hreceived
    rw [payClaims, hknown]
    dsimp only
    rw [hrange]
    have hmoney : 0 < st.current → 0 < claim.getEligible env - nTotalReceived →
        moneyRange (st.pay claim
          (min st.current (claim.getEligible env - nTotalReceived))).current = true := by
      intro hpos hlacks
      rw [moneyRange_iff] at hcurrent ⊢
      unfold PayoutLoop.pay
      dsimp only
      omega
    split_ifs with hvalid hrange' hskip hlacks hmoney' hlarge
    · exact ih hrest hcurrent
    · cases hrange'
    · exact ih hrest hcurrent
    · exact ih hrest hcurrent
    · rw [hmoney (by omega) (by omega)] at hmoney'
      cases hmoney'
    · exact ⟨_, rfl⟩
    · exact ih hrest (hmoney (by omega) (by omega))

/-- Without credit no claim is paid. -/
theorem payClaims_of_exhausted {vin : List CTxIn} {claims : List Claim} {st paid : PayoutLoop}
    (hcurrent : st.current ≤ 0) (h : plan.payClaims env wallet vin claims st = .ok paid) :
    paid = st := by
  induction claims with
  | nil =>
    rw [payClaims] at h
    cases h
    rfl
  | cons claim rest ih =>
    obtain ⟨-, hrest⟩ | ⟨amount, hpays, -⟩ := payClaims_cons_cases h
    · exact ih hrest
    · have hpos := hpays.current_pos
      omega

/-- The loop over the claims keeps outputs that fit, or none. -/
theorem payClaims_fits {vin : List CTxIn} {claims : List Claim} {st paid : PayoutLoop}
    (h : plan.payClaims env wallet vin claims st = .ok paid) :
    st.vout <+: paid.vout ∧
      (paid.vout = st.vout ∧ (paid.outputsOk = true → paid.current = st.current) ∨
        plan.tooLarge vin paid.vout = false) := by
  induction claims generalizing st with
  | nil =>
    rw [payClaims] at h
    cases h
    exact ⟨List.prefix_rfl, .inl ⟨rfl, fun _ => rfl⟩⟩
  | cons claim rest ih =>
    obtain ⟨-, hrest⟩ | ⟨amount, -, ⟨-, rfl⟩ | ⟨hsmall, hrest⟩⟩ := payClaims_cons_cases h
    · exact ih hrest
    · have hvout : (st.pay claim amount).takeBack.vout = st.vout := List.dropLast_concat
      exact ⟨hvout ▸ List.prefix_rfl, .inl ⟨hvout, fun hok => by cases hok⟩⟩
    · obtain ⟨hgrows, hcases⟩ := ih hrest
      refine ⟨(List.prefix_append _ _).trans hgrows, .inr ?_⟩
      obtain ⟨hsame, -⟩ | hfits := hcases
      · rw [hsame]
        exact hsmall
      · exact hfits

/-- The outputs of an attempt that pays all claims. -/
theorem wholeOutputs_of_payClaims {st : StakeLoop} {paid : PayoutLoop}
    (h : plan.payClaims env wallet st.vin plan.claims (plan.startPayouts env st) = .ok paid)
    (hok : paid.outputsOk = true) :
    plan.wholeOutputs env wallet st = paid.vout ++
      if 0 < paid.current then [amountOut paid.current env.params.genesisPubKey] else [] := by
  have hcurrent : (plan.startPayouts env st).current = plan.nCredit - st.nMinFee := rfl
  obtain ⟨-, hvout, hleft⟩ | ⟨hlimit, -⟩ := payClaims_all rfl h
  · rw [hvout, hleft, hcurrent]
    rfl
  · rw [hok] at hlimit
    cases hlimit

theorem baseOutputs_prefix (env : Env) (wallet : CWallet) (plan : StakePlan) (st : StakeLoop) :
    plan.baseOutputs env <+: plan.wholeOutputs env wallet st :=
  ⟨_, (List.append_assoc _ _ _).symm⟩

variable {vin signed : List CTxIn} {st : StakeLoop} {outputs : StakeOutputs}

theorem genesisOutputs_makes (h : FixedSizes env wallet plan vin signed) (hfee : 0 ≤ st.nMinFee)
    (hcredit : st.nMinFee ≤ plan.nCredit) :
    ∃ outputs, plan.genesisOutputs env wallet st = .ok outputs ∧
      Makes env wallet plan st outputs := by
  have hrange := (moneyRange_iff _).mp h.credit
  have hcurrent : (plan.startPayouts env st).current = plan.nCredit - st.nMinFee := rfl
  obtain ⟨paid, hpaid⟩ := @payClaims_isOk env wallet plan st.vin plan.claims
    (plan.startPayouts env st) h.received (by rw [hcurrent, moneyRange_iff]; omega)
  obtain ⟨outputs, houtputs⟩ : ∃ outputs, plan.genesisOutputs env wallet st = .ok outputs := by
    unfold genesisOutputs
    rw [if_neg (by omega), hpaid]
    dsimp only
    split_ifs <;> exact ⟨_, rfl⟩
  refine ⟨outputs, houtputs, ?_⟩
  obtain ⟨-, paid', hpaid', -, hchange⟩ := genesisOutputs_cases houtputs
  obtain rfl : paid = paid' := Except.ok.inj (hpaid.symm.trans hpaid')
  obtain hnone | hpos : plan.nCredit = st.nMinFee ∨ st.nMinFee < plan.nCredit := by omega
  · have hsame := payClaims_of_exhausted (by omega) hpaid
    obtain ⟨-, hvout, hok⟩ | ⟨hpos, -⟩ := hchange
    · have hstart : paid.outputsOk = true := by
        rw [hsame]
        rfl
      have hwhole := wholeOutputs_of_payClaims hpaid hstart
      rw [if_neg (by rw [hsame, hcurrent]; omega), List.append_nil] at hwhole
      exact .nothing hnone (hok.trans hstart) (hvout.trans hwhole.symm) (by rw [hvout, hsame]; rfl)
    · rw [hsame, hcurrent] at hpos
      omega
  · obtain ⟨hbase, hfits⟩ := payClaims_fits hpaid
    cases hlimit : outputs.outputsOk with
    | false =>
      apply Makes.part (tooLarge_of_outputsOk_false houtputs hlimit) hlimit hpos
      · obtain ⟨-, hvout, -⟩ | ⟨-, ⟨-, hvout, -⟩ | ⟨-, hvout, -⟩⟩ := hchange
        · exact hvout ▸ hbase
        · exact hvout ▸ hbase
        · exact hvout ▸ hbase.trans (List.prefix_append _ _)
      · obtain ⟨-, hvout, -⟩ | ⟨-, ⟨-, hvout, -⟩ | ⟨hsmall, hvout, -⟩⟩ := hchange
        · exact hvout ▸ hfits.imp And.left id
        · exact hvout ▸ hfits.imp And.left id
        · exact .inr (hvout ▸ hsmall)
    | true =>
      obtain ⟨hleft, hvout, hok⟩ | ⟨hleft, ⟨-, -, hok⟩ | ⟨hsmall, hvout, hok⟩⟩ := hchange
      · have hwhole := wholeOutputs_of_payClaims hpaid (hok ▸ hlimit)
        rw [if_neg (by omega), List.append_nil] at hwhole
        obtain ⟨-, hsame⟩ | hsmall := hfits
        · -- nothing was paid, so the credit is still there
          rw [hsame (hok ▸ hlimit), hcurrent] at hleft
          omega
        · exact .everything (hwhole ▸ hsmall) hlimit (hvout.trans hwhole.symm)
      · rw [hlimit] at hok
        cases hok
      · have hwhole := wholeOutputs_of_payClaims hpaid (hok ▸ hlimit)
        rw [if_pos hleft] at hwhole
        exact .everything (hwhole ▸ hsmall) hlimit (hvout.trans hwhole.symm)

/-- The fee that the signed coinstake with these outputs needs. -/
def signedFee (env : Env) (plan : StakePlan) (signed : List CTxIn) (vout : List CTxOut) : ℤ :=
  plan.nNeededFee env (txSize (plan.txNew signed vout))

theorem nNeededFee_of_v07 (hv07 : isProtocolV07 env.params plan.nTime.toNat = true) (nBytes : ℕ) :
    plan.nNeededFee env nBytes = max 0 (min MAX_MONEY (nBytes * 10) - PERKB_TX_FEE) := by
  have hmax : 10010 ≤ MAX_MONEY := by decide
  have hkb : PERKB_TX_FEE = 10000 := by decide
  have hstep : PERKB_TX_FEE / 1000 = 10 := by decide
  have hshort : moneyRange MIN_TX_FEE = true ∧ MIN_TX_FEE = 1000 := by decide
  have hrange := moneyRange_iff ((nBytes : ℤ) * 10)
  unfold nNeededFee getMinFee
  rw [hv07, Bool.true_or, if_pos rfl, hstep]
  dsimp only
  by_cases hbytes : nBytes < 100
  · rw [if_pos hbytes, hshort.1, Bool.not_true, if_neg Bool.false_ne_true]
    split_ifs <;> omega
  · rw [if_neg hbytes]
    cases hmoney : moneyRange ((nBytes : ℤ) * 10) with
    | false =>
      rw [hmoney] at hrange
      have hover : MAX_MONEY < nBytes * 10 := by
        by_contra hle
        exact Bool.false_ne_true (hrange.mpr ⟨by omega, by omega⟩)
      rw [Bool.not_false, if_pos rfl]
      split_ifs <;> omega
    | true =>
      have hle := (hrange.mp hmoney).2
      rw [Bool.not_true, if_neg Bool.false_ne_true]
      split_ifs <;> omega

/-- A thousand bytes need no fee. -/
theorem signedFee_eq_zero_iff (hv07 : isProtocolV07 env.params plan.nTime.toNat = true)
    (vout : List CTxOut) :
    plan.signedFee env signed vout = 0 ↔ plan.tooLarge signed vout = false := by
  have hmax : 10010 ≤ MAX_MONEY := by decide
  have hkb : PERKB_TX_FEE = 10000 := by decide
  unfold signedFee
  rw [nNeededFee_of_v07 hv07, tooLarge_eq_false_iff]
  omega

theorem signedFee_nonneg (vout : List CTxOut) : 0 ≤ plan.signedFee env signed vout :=
  nNeededFee_nonneg _

theorem signedFee_mono (hv07 : isProtocolV07 env.params plan.nTime.toNat = true)
    {vout vout' : List CTxOut} (h : vout <+: vout') :
    plan.signedFee env signed vout ≤ plan.signedFee env signed vout' := by
  obtain ⟨more, rfl⟩ := h
  have hsize := plan.txSize_le_append signed vout more
  unfold signedFee
  rw [nNeededFee_of_v07 hv07, nNeededFee_of_v07 hv07]
  omega

/-- A state of the loop with signed inputs. -/
structure Resigned (plan : StakePlan) (vin signed : List CTxIn) (st : StakeLoop) : Prop where
  inputs : ∀ scripts, signedInputs st.vin scripts = signedInputs vin scripts
  size : ∀ vout, txSize (plan.txNew st.vin vout) = txSize (plan.txNew signed vout)

theorem signedInputs_signedInputs (vin : List CTxIn)
    (scripts scripts' : ℕ → CScript × List (List UInt8)) :
    signedInputs (signedInputs vin scripts) scripts' = signedInputs vin scripts' := by
  unfold signedInputs
  rw [List.mapIdx_mapIdx]
  rfl

theorem Resigned.tooLarge_eq (h : Resigned plan vin signed st) (vout : List CTxOut) :
    plan.tooLarge st.vin vout = plan.tooLarge signed vout := by
  unfold tooLarge
  rw [h.size]

/-- The loop is left exactly if the outputs fit and the fee is enough. -/
theorem attempt_of_fixedSizes (h : FixedSizes env wallet plan vin signed)
    (hheld : plan.genesis_key_held = true)
    (hinputs : ∀ scripts, signedInputs st.vin scripts = signedInputs vin scripts)
    (houtputs : plan.genesisOutputs env wallet st = .ok outputs)
    (hsmall : txSize (plan.txNew signed outputs.vout) < 1000000 / 5) :
    if plan.signedFee env signed outputs.vout ≤ st.nMinFee ∧ outputs.outputsOk = true then
      ∃ result, plan.attempt env wallet st = .leave result
    else ∃ next, plan.attempt env wallet st = .again next ∧ Resigned plan vin signed next ∧
      next.nMinFee = plan.signedFee env signed outputs.vout := by
  obtain ⟨scripts, hsign, hsize⟩ := h.sign st.attempt (plan.txNew st.vin outputs.vout)
  unfold attempt stakeOutputs
  rw [if_pos hheld, houtputs]
  dsimp only
  unfold signStake
  rw [hsign]
  dsimp only
  rw [hinputs, hsize, if_neg (not_le.mpr hsmall)]
  by_cases hdone : plan.signedFee env signed outputs.vout ≤ st.nMinFee ∧ outputs.outputsOk = true
  · rw [if_pos hdone, if_neg]
    · exact ⟨_, rfl⟩
    · rw [hdone.2, not_or]
      exact ⟨not_lt.mpr hdone.1, Bool.true_eq_false_eq_False⟩
  · rw [if_neg hdone, if_pos]
    · refine ⟨_, rfl, ⟨fun _ => signedInputs_signedInputs _ _ _, hsize⟩, rfl⟩
    · rwa [not_and_or, not_le, Bool.not_eq_true] at hdone

section Signed

variable (h : FixedSizes env wallet plan vin signed) (hheld : plan.genesis_key_held = true)
  (hbase : txSize (plan.txNew signed (plan.baseOutputs env)) < 1000000 / 5)
  (hst : Resigned plan vin signed st) (hfee : 0 ≤ st.nMinFee)
include h hheld hbase hst hfee

/-- The loop is left if everything fits, or if the fee leaves nothing to pay. -/
theorem leave_of_fits (hneeds : plan.signedFee env signed (plan.baseOutputs env) ≤ st.nMinFee)
    (hfits : plan.nCredit ≤ st.nMinFee ∨ FitsFor env wallet plan signed st.nMinFee) :
    ∃ result, plan.attempt env wallet st = .leave result := by
  by_cases hcredit : plan.nCredit < st.nMinFee
  · unfold attempt stakeOutputs genesisOutputs
    rw [if_pos hheld, if_pos (by omega)]
    exact ⟨_, rfl⟩
  · obtain ⟨outputs, houtputs, hmakes⟩ := genesisOutputs_makes h hfee (not_lt.mp hcredit)
    have hattempt := @attempt_of_fixedSizes env wallet plan vin signed st outputs h hheld
      hst.inputs houtputs
    cases hmakes with
    | nothing _ hok _ hvout =>
      rw [hvout] at hattempt
      have hleave := hattempt hbase
      rwa [if_pos ⟨hneeds, hok⟩] at hleave
    | everything hsmall hok hvout =>
      rw [hst.tooLarge_eq, ← hvout] at hsmall
      have hnone := (signedFee_eq_zero_iff h.v07 outputs.vout).mpr hsmall
      rw [tooLarge_eq_false_iff] at hsmall
      have hleave := hattempt (by omega)
      rwa [if_pos ⟨by omega, hok⟩] at hleave
    | part hlarge _ hpos _ _ =>
      obtain hover | hwhole := hfits
      · omega
      · rw [hst.tooLarge_eq] at hlarge
        unfold FitsFor at hwhole
        exact absurd (hwhole.symm.trans hlarge) Bool.false_ne_true

/-- Otherwise outputs are dropped, and the next attempt has the fee of what is left. -/
theorem again_of_not_fits (hcredit : st.nMinFee < plan.nCredit)
    (hlarge : ¬ FitsFor env wallet plan signed st.nMinFee) :
    ∃ next, plan.attempt env wallet st = .again next ∧ Resigned plan vin signed next ∧
      next.nMinFee = plan.signedFee env signed (plan.baseOutputs env) := by
  obtain ⟨outputs, houtputs, hmakes⟩ := genesisOutputs_makes h hfee hcredit.le
  have hattempt := @attempt_of_fixedSizes env wallet plan vin signed st outputs h hheld
    hst.inputs houtputs
  cases hmakes with
  | nothing hnone _ _ _ => omega
  | everything hsmall _ _ =>
    rw [hst.tooLarge_eq] at hsmall
    exact absurd hsmall hlarge
  | part _ hok _ hgrows hvout =>
    have hlimit : ¬ (plan.signedFee env signed outputs.vout ≤ st.nMinFee ∧
        outputs.outputsOk = true) := by
      rw [hok]
      exact fun hdone => Bool.false_ne_true hdone.2
    rw [if_neg hlimit] at hattempt
    obtain hsame | hsmall := hvout
    · rw [hsame] at hattempt
      exact hattempt hbase
    · rw [hst.tooLarge_eq] at hsmall
      have hnone := (signedFee_eq_zero_iff h.v07 outputs.vout).mpr hsmall
      have hle := @signedFee_mono env plan signed h.v07 _ _ hgrows
      have hnonneg := @signedFee_nonneg env plan signed (plan.baseOutputs env)
      rw [tooLarge_eq_false_iff] at hsmall
      obtain ⟨next, hagain, hnext, hneeded⟩ := hattempt (by omega)
      exact ⟨next, hagain, hnext, by omega⟩

/-- Then the loop goes on for ever. -/
theorem not_ends_of_not_fits (hcredit : st.nMinFee < plan.nCredit)
    (hneeds : plan.signedFee env signed (plan.baseOutputs env) ≤ st.nMinFee)
    (hlarge : ¬ FitsFor env wallet plan signed st.nMinFee)
    (hnone : ¬ FitsFor env wallet plan signed 0) :
    ¬ Loop.Ends (plan.attempt env wallet) st := by
  have hnonneg := @signedFee_nonneg env plan signed (plan.baseOutputs env)
  -- the fee of the outputs before any payout does not make everything fit
  have hbaseFee : ¬ FitsFor env wallet plan signed
      (plan.signedFee env signed (plan.baseOutputs env)) := by
    intro hfits
    by_cases hzero : plan.signedFee env signed (plan.baseOutputs env) = 0
    · rw [hzero] at hfits
      exact hnone hfits
    · rw [signedFee_eq_zero_iff h.v07, Bool.not_eq_false] at hzero
      obtain ⟨more, hmore⟩ := plan.baseOutputs_prefix env wallet
        { vin := signed, nMinFee := plan.signedFee env signed (plan.baseOutputs env) }
      have hwhole := plan.tooLarge_append more hzero
      rw [hmore] at hwhole
      exact Bool.false_ne_true (hfits.symm.trans hwhole)
  obtain ⟨next, hagain, hnext, hneeded⟩ :=
    again_of_not_fits h hheld hbase hst hfee hcredit hlarge
  rw [Loop.ends_iff_of_again hagain]
  apply Loop.not_ends_of_invariant (I := fun st => Resigned plan vin signed st ∧
    st.nMinFee = plan.signedFee env signed (plan.baseOutputs env))
  · rintro st ⟨hst, hst_fee⟩
    exact again_of_not_fits h hheld hbase hst (by omega) (by omega) (hst_fee ▸ hbaseFee)
  · exact ⟨hnext, hneeded⟩

end Signed

theorem Makes.baseOutputs_prefix (hmakes : Makes env wallet plan st outputs) :
    plan.baseOutputs env <+: outputs.vout := by
  cases hmakes with
  | nothing _ _ _ hvout => rw [hvout]
  | everything _ _ hvout => exact hvout ▸ plan.baseOutputs_prefix env wallet _
  | part _ _ _ hgrows _ => exact hgrows

/-- The first attempt needs no other one exactly if everything fits without a fee. -/
theorem Makes.free_iff (hmakes : Makes env wallet plan { vin } outputs)
    (h : FixedSizes env wallet plan vin signed) :
    plan.signedFee env signed outputs.vout ≤ 0 ∧ outputs.outputsOk = true ↔
      FitsFor env wallet plan signed 0 := by
  have hfee : plan.signedFee env signed outputs.vout ≤ 0 ↔
      plan.tooLarge signed outputs.vout = false := by
    have hnonneg := @signedFee_nonneg env plan signed outputs.vout
    rw [← signedFee_eq_zero_iff h.v07]
    omega
  rw [hfee]
  cases hmakes with
  | nothing _ hok hvout _ => exact hvout ▸ and_iff_left hok
  | everything _ hok hvout => exact hvout ▸ and_iff_left hok
  | part hlarge hok _ _ _ =>
    refine ⟨fun hdone => absurd (hok.symm.trans hdone.2) Bool.false_ne_true, fun hfits => ?_⟩
    -- without signatures it is no larger
    have hunsigned := (h.unsigned_le _).trans (tooLarge_eq_false_iff.mp hfits)
    exact absurd ((tooLarge_eq_false_iff.mpr hunsigned).symm.trans hlarge) Bool.false_ne_true

/-- With signatures of a fixed size the loop of the genesis key ends exactly if everything
fits into the signed coinstake, without a fee or with the fee that the first attempt asks
for, or if that fee takes the whole credit. -/
theorem genesis_ends_iff (h : FixedSizes env wallet plan vin signed)
    (hheld : plan.genesis_key_held = true)
    (houtputs : plan.genesisOutputs env wallet { vin } = .ok outputs)
    (hsmall : txSize (plan.txNew signed outputs.vout) < 1000000 / 5) :
    Loop.Ends (plan.attempt env wallet) { vin } ↔ FitsFor env wallet plan signed 0 ∨
      plan.nCredit ≤ plan.signedFee env signed outputs.vout ∨
      FitsFor env wallet plan signed (plan.signedFee env signed outputs.vout) := by
  have hcredit := ((moneyRange_iff _).mp h.credit).1
  obtain ⟨outputs', houtputs', hmakes⟩ := @genesisOutputs_makes env wallet plan vin signed { vin } h
    le_rfl hcredit
  obtain rfl : outputs = outputs' := Except.ok.inj (houtputs.symm.trans houtputs')
  have hgrows := hmakes.baseOutputs_prefix
  have hneeds := @signedFee_mono env plan signed h.v07 _ _ hgrows
  have hnonneg := @signedFee_nonneg env plan signed outputs.vout
  have hbase : txSize (plan.txNew signed (plan.baseOutputs env)) < 1000000 / 5 := by
    obtain ⟨more, hmore⟩ := hgrows
    have hsize := plan.txSize_le_append signed (plan.baseOutputs env) more
    rw [hmore] at hsize
    omega
  have hattempt := @attempt_of_fixedSizes env wallet plan vin signed { vin } outputs h hheld
    (fun _ => rfl) houtputs hsmall
  have hfirst := hmakes.free_iff h
  by_cases hfits : FitsFor env wallet plan signed 0
  · rw [if_pos (hfirst.mpr hfits)] at hattempt
    obtain ⟨result, hleave⟩ := hattempt
    exact ⟨fun _ => .inl hfits, fun _ => Loop.ends_of_leave hleave⟩
  · rw [if_neg (mt hfirst.mp hfits)] at hattempt
    obtain ⟨next, hagain, hnext, hneeded⟩ := hattempt
    rw [Loop.ends_iff_of_again hagain, ← hneeded]
    rw [← hneeded] at hneeds hnonneg
    constructor
    · intro hends
      by_contra hnot
      obtain ⟨-, hover, hlarge⟩ := not_or.mp hnot |>.imp_right not_or.mp
      exact not_ends_of_not_fits h hheld hbase hnext hnonneg (not_le.mp hover) hneeds hlarge hfits
        hends
    · rintro (hnone | hsecond)
      · exact absurd hnone hfits
      · obtain ⟨result, hleave⟩ := leave_of_fits h hheld hbase hnext hnonneg hneeds hsecond
        exact Loop.ends_of_leave hleave

end StakePlan

/-- Signing does not take bytes away from new inputs. -/
theorem length_serTxIn_newInputs_le (inputs : List COutput)
    (scripts : ℕ → CScript × List (List UInt8)) :
    ((newInputs inputs).flatMap serTxIn).length ≤
      ((signedInputs (newInputs inputs) scripts).flatMap serTxIn).length := by
  induction inputs generalizing scripts with
  | nil => exact le_rfl
  | cons input rest ih =>
    have hrest := ih fun nIn => scripts (nIn + 1)
    unfold newInputs signedInputs at hrest ⊢
    rw [List.map_cons, List.mapIdx_cons, List.flatMap_cons, List.flatMap_cons]
    simp only [List.length_append]
    have hfirst : (serTxIn ⟨input.outpoint, ⟨[]⟩, 0xffffffff, []⟩).length ≤
        (serTxIn ⟨input.outpoint, (scripts 0).1, 0xffffffff, (scripts 0).2⟩).length := by
      have hscript := @PrefixCode.length_lengthPrefixed_le_append _ (fun byte : UInt8 => [byte]) []
        (scripts 0).1.bytes
      rw [List.nil_append] at hscript
      unfold serTxIn serScript serBytes
      simp only [List.length_append]
      omega
    exact Nat.add_le_add hfirst hrest

theorem txSize_newInputs_le (inputs : List COutput) (scripts : ℕ → CScript × List (List UInt8))
    (vout : List CTxOut) : txSize (plan.txNew (newInputs inputs) vout) ≤
      txSize (plan.txNew (signedInputs (newInputs inputs) scripts) vout) := by
  have hvin := length_serTxIn_newInputs_le inputs scripts
  have hcount : (signedInputs (newInputs inputs) scripts).length = (newInputs inputs).length :=
    List.length_mapIdx
  have hplain : (plan.txNew (newInputs inputs) vout).hasWitness = false := by
    unfold CTransaction.hasWitness txNew newInputs
    simp
  unfold txSize serializeTransaction
  rw [hplain]
  dsimp only
  rw [Bool.and_false, if_neg Bool.false_ne_true, if_neg Bool.false_ne_true]
  unfold txNew serTxVersion
  simp only [List.length_append, PrefixCode.lengthPrefixed, hcount, List.length_nil]
  omega

namespace SmallNet

/-- Whether the wallet knows the totals of the claims, and whether the payouts and the change
are too large together, with and without the fee that the first attempt asks for. -/
def overcrowded (env : Env) (wallet : CWallet) (plan : StakePlan) (vin signed : List CTxIn) :
    Bool :=
  plan.genesis_key_held && moneyRange plan.nCredit &&
  isProtocolV07 env.params plan.nTime.toNat &&
  (plan.claims.all fun claim => (wallet.calculateReceived claim.getTarget).any moneyRange) &&
  match plan.genesisOutputs env wallet { vin } with
  | .error _ => false
  | .ok outputs =>
    decide (txSize (plan.txNew signed outputs.vout) < 1000000 / 5) &&
      decide (plan.signedFee env signed outputs.vout < plan.nCredit) &&
      plan.tooLarge signed (plan.wholeOutputs env wallet { vin := signed, nMinFee := 0 }) &&
      plan.tooLarge signed (plan.wholeOutputs env wallet
        { vin := signed, nMinFee := plan.signedFee env signed outputs.vout })

theorem not_ends_of_overcrowded {env : Env} {wallet : CWallet} {plan : StakePlan}
    {inputs : List COutput} {scripts : ℕ → CScript × List (List UInt8)}
    (hsign : ∀ k tx, wallet.sign k tx = some scripts)
    (h : overcrowded env wallet plan (newInputs inputs)
      (signedInputs (newInputs inputs) scripts) = true) :
    ¬ Loop.Ends (plan.attempt env wallet) { vin := newInputs inputs } := by
  unfold overcrowded at h
  rw [Bool.and_eq_true, Bool.and_eq_true, Bool.and_eq_true, Bool.and_eq_true, List.all_eq_true] at h
  obtain ⟨⟨⟨⟨hheld, hcredit⟩, hv07⟩, hreceived⟩, hlarge⟩ := h
  have hfixed : FixedSizes env wallet plan (newInputs inputs)
      (signedInputs (newInputs inputs) scripts) :=
    { sign := fun k tx => ⟨scripts, hsign k tx, fun _ => rfl⟩
      unsigned_le := txSize_newInputs_le inputs scripts
      received := fun claim hclaim => (Option.any_eq_true _ _).mp (hreceived claim hclaim)
      credit := hcredit
      v07 := hv07 }
  cases houtputs : plan.genesisOutputs env wallet { vin := newInputs inputs } with
  | error failure =>
    rw [houtputs] at hlarge
    cases hlarge
  | ok outputs =>
    rw [houtputs] at hlarge
    simp only [Bool.and_eq_true, decide_eq_true_eq] at hlarge
    obtain ⟨⟨⟨hsmall, hcovers⟩, hnone⟩, hfee⟩ := hlarge
    rw [genesis_ends_iff hfixed hheld houtputs hsmall]
    rintro (hfits | hover | hfits)
    · exact Bool.false_ne_true (hfits.symm.trans hnone)
    · omega
    · exact Bool.false_ne_true (hfits.symm.trans hfee)

/-- There are 24 claims in the pool, which a coin of the genesis key can pay.  With the change
the coinstake is larger than a thousand bytes.  The wallet drops the change, tries again and
drops it again. -/
theorem crowd_is_never_paid :
    (∃ plan inputs, prepareStake (crowdNode 24 (10 * COIN)) mintRules
        (mintWallet [genesisCoin 0] []) (crowdCall 24 (10 * COIN)) = .ok (plan, inputs) ∧
      plan.claims.length = 24 ∧
      ¬ Loop.Ends (plan.attempt (crowdNode 24 (10 * COIN)) (mintWallet [genesisCoin 0] []))
        { vin := newInputs inputs }) ∧
    ∀ attempts, createCoinStake? (crowdNode 24 (10 * COIN)) mintRules
      (mintWallet [genesisCoin 0] []) (crowdCall 24 (10 * COIN)) attempts = none := by
  have hpresigned : presignedStake (crowdCall 24 (10 * COIN))
      (mintWallet [genesisCoin 0] []).m_coinstakes = none := rfl
  have hrun : ((prepareStake (crowdNode 24 (10 * COIN)) mintRules (mintWallet [genesisCoin 0] [])
      (crowdCall 24 (10 * COIN))).toOption.any fun planned =>
        decide (planned.1.claims.length = 24) && overcrowded (crowdNode 24 (10 * COIN))
          (mintWallet [genesisCoin 0] []) planned.1 (newInputs planned.2)
          (signedInputs (newInputs planned.2) fun _ => (⟨List.replicate 72 0⟩, []))) = true := by
    decide +kernel
  cases hplan : prepareStake (crowdNode 24 (10 * COIN)) mintRules (mintWallet [genesisCoin 0] [])
      (crowdCall 24 (10 * COIN)) with
  | error failure =>
    rw [hplan] at hrun
    cases hrun
  | ok planned =>
    obtain ⟨plan, inputs⟩ := planned
    rw [hplan, Except.toOption, Option.any_some, Bool.and_eq_true, decide_eq_true_iff] at hrun
    have hends := not_ends_of_overcrowded (fun _ _ => rfl) hrun.2
    refine ⟨⟨plan, inputs, rfl, hrun.1, hends⟩, ?_⟩
    intro attempts
    cases hresult : Loop.run
        (plan.attempt (crowdNode 24 (10 * COIN)) (mintWallet [genesisCoin 0] []))
        attempts { vin := newInputs inputs } with
    | some result => exact absurd ⟨attempts, result, hresult⟩ hends
    | none =>
      unfold createCoinStake?
      rw [hpresigned]
      dsimp only
      rw [hplan]
      dsimp only
      rw [hresult, Option.map_none]

end SmallNet

end Patchcoin
