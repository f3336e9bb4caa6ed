import Patchcoin.Chain.PoolSteps
import Patchcoin.SmallNet

/-!
# Payout caps along a chain

`CheckClaimEligibility` walks over the ancestors of the block and adds up what
they have recorded for the source of a claim.  Since a block records a source
at most once, after its check, the total over a chain stays within what the
source may receive, and the number of paying blocks within the limit on
outputs.  The induction is over the blocks of the chain; a block that was
connected before keeps the records of that time in its entry, and they were
checked then.

The walk is skipped for a Bitcoin claim whose signature the node did not
verify.  Without the lookup service the first payout is within the reward, and a later one is
refused only when the claim itself has noted more than the reward: the cap comes one payout
too late.
-/

namespace Patchcoin

open Std.ExtTreeMap CBlockIndex

variable {env : Env} {kernel : Kernel} {ancestors : IndexChain} {source : CScript}
variable {pindex : CBlockIndex} {chain' : IndexChain} {value : ℕ}

/-! ## Chains -/

/-- The chains that `ConnectBlock` builds, one block after the other, from states that
satisfy the given condition.  An entry is new, or it was part of a connected chain before.
In that case its ancestors have the same records as at that time: claims are never erased from
`g_claims`, and a start of the node reloads every stored claim or stops, so an output that was
attributed to a claim is attributed to the same one again. -/
inductive ConnectedChain (env : Env) (kernel : Kernel)
    (start : IndexChain → ConnectState → Prop) : IndexChain → Prop
  | nil : ConnectedChain env kernel start []
  | connect {ancestors : IndexChain} {ctx : Circumstances} {st : ConnectState}
      (hchain : ConnectedChain env kernel start ancestors) (hstart : start ancestors st)
      (hnew : st.pindex.nClaims = ∅)
      (hok : (connectBlock env kernel ctx ancestors false st).result = .ok ()) :
      ConnectedChain env kernel start
        ((connectBlock env kernel ctx ancestors false st).state.pindex :: ancestors)
  | reconnect {ancestors ancestors' : IndexChain} {ctx : Circumstances}
      {st : ConnectState} {old : CBlockIndex}
      (hbefore : ConnectedChain env kernel start (old :: ancestors'))
      (hchain : ConnectedChain env kernel start ancestors) (hstart : start ancestors st)
      (hsame : ancestors'.map CBlockIndex.nClaims = ancestors.map CBlockIndex.nClaims)
      (hold : st.pindex.nClaims = old.nClaims)
      (hok : (connectBlock env kernel ctx ancestors false st).result = .ok ()) :
      ConnectedChain env kernel start
        ((connectBlock env kernel ctx ancestors false st).state.pindex :: ancestors)

/-- The records of a source along a chain. -/
def recordsOf (chain : IndexChain) (source : CScript) : List (Option ℕ) :=
  chain.map fun pindex => pindex.nClaims[source]?

theorem claimedTotal_eq (chain : IndexChain) (source : CScript) :
    claimedTotal chain source = ((recordsOf chain source).map fun record => record.getD 0).sum := by
  unfold claimedTotal recordsOf
  rw [List.map_map]
  congr 1
  exact List.map_congr_left fun pindex _ => getD_eq_getD_getElem?

theorem claimedCount_eq (chain : IndexChain) (source : CScript) :
    claimedCount chain source = (recordsOf chain source).countP Option.isSome := by
  unfold claimedCount recordsOf
  rw [List.countP_map]
  exact List.countP_congr fun pindex _ => by
    rw [contains_eq_isSome_getElem?]
    rfl

theorem recordsOf_congr {chain : IndexChain} (h : chain.map nClaims = chain'.map nClaims)
    (source : CScript) : recordsOf chain source = recordsOf chain' source := by
  have hread (chain : IndexChain) : recordsOf chain source =
      (chain.map nClaims).map fun nClaims => nClaims[source]? := by
    rw [List.map_map]
    rfl
  rw [hread, hread, h]

/-! ## One payout -/

/-- What is known of a payout that `ConnectBlock` recorded on top of its ancestors. -/
structure CheckedPayout (env : Env) (ancestors : IndexChain) (pool : ClaimPool)
    (source : CScript) (value : ℕ) : Prop where
  reward_le : (value : ℤ) ≤ MAX_CLAIM_REWARD
  counted : Countable env source →
    (value + claimedTotal ancestors source : ℤ) ≤ eligibleFor env source ∧
      claimedCount ancestors source + 1 ≤ maxPossibleOutputs env.params
  /-- the claim was valid with what it had received when the block came -/
  received_le : ∀ claim, pool[source]? = some claim → claim.nTotalReceived ≤ MAX_CLAIM_REWARD

/-- A payout that was checked in the loop, on top of the payouts of the ancestors. -/
theorem PaidLoop.bounds {loop : TxLoop} (h : PaidLoop env ancestors loop)
    {payout : CScript × ℤ} (hentry : loop.claims[source]? = some payout) :
    0 ≤ payout.2 ∧ payout.2 ≤ MAX_CLAIM_REWARD ∧
      (Countable env source →
        claimedTotal ancestors source + payout.2 ≤ eligibleFor env source ∧
        claimedCount ancestors source + 1 ≤ maxPossibleOutputs env.params) := by
  obtain ⟨key, value⟩ := payout
  obtain ⟨rfl, claim, hpaid⟩ := h.paid.paid source key value hentry
  obtain ⟨nOutputs, count, hamounts⟩ := hpaid.amounts
  have hvalid : (claim.isValid env).2 = .OK := congrArg Prod.snd hpaid.valid
  have hself : (claim.isValid env).1 = claim := congrArg Prod.fst hpaid.valid
  obtain ⟨hsource, hkey⟩ := h.paid.sound.source_of_valid hpaid.entry hvalid
  have hpayable : Payable env ancestors key value nOutputs := by
    rw [hkey, ← checkClaimAmounts_iff_payable (h.paid.sound key claim hpaid.entry).1 hvalid, hself]
    exact ⟨count, hamounts⟩
  have hnonneg := ((moneyRange_iff _).mp (h.range key (key, value) hentry)).1
  have hreward := hpayable.reward_le
  refine ⟨hnonneg, by dsimp only; omega, ?_⟩
  intro hcountable
  have heligible := hpayable.eligible hcountable
  have hcount := hpayable.count_le
  rw [receivedBefore, if_pos hcountable] at heligible
  rw [paidBefore, if_pos hcountable] at hcount
  exact ⟨heligible, by omega⟩

theorem PaidLoop.nTotalReceived_le {loop : TxLoop} (h : PaidLoop env ancestors loop)
    {payout : CScript × ℤ} (hentry : loop.claims[source]? = some payout) {claim : Claim}
    (hclaim : loop.g_claims[source]? = some claim) : claim.nTotalReceived ≤ MAX_CLAIM_REWARD := by
  obtain ⟨key, value⟩ := payout
  obtain ⟨rfl, paid, hpaid⟩ := h.paid.paid source key value hentry
  obtain rfl : claim = paid := Option.some.inj (hclaim.symm.trans hpaid.entry)
  have hvalid : (claim.isValid env).2 = .OK := congrArg Prod.snd hpaid.valid
  exact ((h.paid.sound key claim hpaid.entry).1.isValid_iff.mp hvalid).2.2.2.1

/-! ## One block -/

/-- What a connected block holds for a source: the record it had before, or a payout
that was checked against the ancestors. -/
theorem connectBlock_record {ctx : Circumstances} {st : ConnectState}
    (hpool : st.g_claims.Sound env)
    (hok : (connectBlock env kernel ctx ancestors false st).result = .ok ()) (source : CScript) :
    (connectBlock env kernel ctx ancestors false st).state.pindex.nClaims[source]? =
        st.pindex.nClaims[source]? ∨
      ∃ value : ℕ,
        (connectBlock env kernel ctx ancestors false st).state.pindex.nClaims[source]? =
          some value ∧ CheckedPayout env ancestors st.g_claims source value := by
  obtain ⟨staged, hconnected⟩ := connected_of_ok hok
  obtain ⟨hpaid, -, hrecords⟩ := hconnected.payouts hpool
  have hrecord := hrecords source
  cases hentry : (connectLoop env ctx ancestors staged).state.claims[source]? with
  | none =>
    rw [hentry] at hrecord
    exact .inl hrecord
  | some payout =>
    rw [hentry] at hrecord
    obtain ⟨hnonneg, hreward, hcounted⟩ := hpaid.bounds hentry
    have hcast : (payout.2.toNat : ℤ) = payout.2 := Int.toNat_of_nonneg hnonneg
    refine .inr ⟨payout.2.toNat, hrecord, hcast ▸ hreward, fun hcountable => ?_, ?_⟩
    · obtain ⟨htotal, hcount⟩ := hcounted hcountable
      exact ⟨by rw [hcast]; omega, hcount⟩
    · -- the loop keeps the claims of the pool, with their totals
      intro claim hclaim
      rw [← hconnected.g_claims] at hclaim
      obtain ⟨claim', hclaim', hsame⟩ := (connectLoop_grown staged).kept source claim hclaim
      have htotal := congrArg Claim.nTotalReceived hsame
      change claim'.nTotalReceived = claim.nTotalReceived at htotal
      rw [← htotal]
      exact hpaid.nTotalReceived_le hentry hclaim'

variable {start : IndexChain → ConnectState → Prop} {chain : IndexChain}

/-- The rule for the records of a source: a block without a payout and a block with one keep
the property.  A record of an earlier connection stands over the records it was made over. -/
theorem ConnectedChain.records_induction {P : List (Option ℕ) → Prop}
    (hchain : ConnectedChain env kernel start chain)
    (hsound : ∀ ancestors st, start ancestors st → st.g_claims.Sound env) (hnil : P [])
    (hskip : ∀ records, P records → P (none :: records))
    (hpay : ∀ {ancestors : IndexChain} {st : ConnectState} {value : ℕ}, start ancestors st →
      CheckedPayout env ancestors st.g_claims source value → P (recordsOf ancestors source) →
      P (some value :: recordsOf ancestors source)) : P (recordsOf chain source) := by
  have hcons (pindex : CBlockIndex) (rest : IndexChain) : recordsOf (pindex :: rest) source =
      pindex.nClaims[source]? :: recordsOf rest source := rfl
  induction hchain with
  | nil => exact hnil
  | connect _ hstart hnew hok ih =>
    rw [hcons]
    rcases connectBlock_record (hsound _ _ hstart) hok source with hsame | ⟨value, hvalue, hpaid⟩
    · rw [hsame, hnew, getElem?_empty]
      exact hskip _ ih
    · rw [hvalue]
      exact hpay hstart hpaid ih
  | reconnect _ _ hstart hrecords hold hok ihBefore ih =>
    rw [hcons]
    rcases connectBlock_record (hsound _ _ hstart) hok source with hsame | ⟨value, hvalue, hpaid⟩
    · rw [hsame, hold, ← recordsOf_congr hrecords]
      exact ihBefore
    · rw [hvalue]
      exact hpay hstart hpaid ih

/-- Along every connected chain, a source whose payouts are counted stays within its
limits. -/
theorem ConnectedChain.capped (hchain : ConnectedChain env kernel start chain)
    (hsound : ∀ ancestors st, start ancestors st → st.g_claims.Sound env)
    (hcountable : Countable env source) :
    (claimedTotal chain source : ℤ) ≤ eligibleFor env source ∧
      claimedCount chain source ≤ maxPossibleOutputs env.params := by
  rw [claimedTotal_eq, claimedCount_eq]
  refine hchain.records_induction (P := fun records =>
    (((records.map fun record => record.getD 0).sum : ℕ) : ℤ) ≤ eligibleFor env source ∧
      records.countP Option.isSome ≤ maxPossibleOutputs env.params) hsound ?_ ?_ ?_
  · exact ⟨by simpa using (eligibleFor_bounds env source).1, by simp⟩
  · intro records hrecords
    simpa using hrecords
  · intro ancestors st value _ hpaid _
    have hcounted := hpaid.counted hcountable
    rw [claimedTotal_eq, claimedCount_eq] at hcounted
    simpa using hcounted

/-- The pool has noted what the chain has paid to a source. -/
def ClaimPool.Remembers (source : CScript) (ancestors : IndexChain) (pool : ClaimPool) : Prop :=
  claimedTotal ancestors source = 0 ∨
    ∃ claim, pool[source]? = some claim ∧ claim.nTotalReceived = claimedTotal ancestors source

/-- Where the pool notes the payouts, a claim is paid only while it has received no more than
the reward, so that the total exceeds the reward by one payout at most. -/
theorem ConnectedChain.total_le (hchain : ConnectedChain env kernel (fun ancestors st =>
      st.g_claims.Sound env ∧ st.g_claims.Remembers source ancestors) chain) :
    (claimedTotal chain source : ℤ) ≤ 2 * MAX_CLAIM_REWARD := by
  rw [claimedTotal_eq]
  refine hchain.records_induction (P := fun records =>
    (((records.map fun record => record.getD 0).sum : ℕ) : ℤ) ≤ 2 * MAX_CLAIM_REWARD)
    (fun _ _ hst => hst.1) (by decide) ?_ ?_
  · intro records hrecords
    simpa using hrecords
  · intro ancestors st value hst hpaid _
    have hbefore : (claimedTotal ancestors source : ℤ) ≤ MAX_CLAIM_REWARD := by
      rcases hst.2 with hzero | ⟨claim, hclaim, htotal⟩
      · rw [hzero]
        decide
      · rw [← htotal]
        exact hpaid.received_le claim hclaim
    have hvalue := hpaid.reward_le
    rw [claimedTotal_eq] at hbefore
    rw [List.map_cons, List.sum_cons, Nat.cast_add]
    exact (add_le_add hvalue hbefore).trans (by omega)

/-! ## Claims on the snapshot -/

/-- What the blocks of a connected chain have paid to the source of a claim on the
snapshot is at most the eligible amount of the claim. -/
theorem snapshot_payouts_capped
    (hchain : ConnectedChain env kernel (fun _ st => st.g_claims.Sound env) chain) {claim : Claim}
    (hbuilt : claim.Built env) (hinit : claim.m_init = true) (hsnapshot : claim.m_is_btc = false) :
    (claimedTotal chain claim.getSource : ℤ) ≤ claim.getEligible env ∧
      claim.getEligible env ≤ MAX_CLAIM_REWARD ∧
      claimedCount chain claim.getSource ≤ claim.MAX_POSSIBLE_OUTPUTS := by
  have hworth := hbuilt.worth hinit
  have hcountable : Countable env claim.m_claim.source := by
    left
    have hclass := hworth.m_is_btc_eq
    rw [hsnapshot] at hclass
    simpa using hclass.symm
  have hcapped := hchain.capped (fun _ _ hst => hst) hcountable
  rw [hworth.getSource_eq, hworth.getEligible_eq, hworth.maxPossible_eq]
  exact ⟨hcapped.1, (eligibleFor_bounds env _).2, hcapped.2⟩

namespace SmallNet

variable {blocks : List CBlock}

theorem sound_reach (env : Env) (blocks : List CBlock) :
    (reach env blocks).1.g_claims.Sound env := by
  induction blocks with
  | nil => exact ClaimPool.sound_empty
  | cons block rest ih =>
    apply ClaimPool.Sound.connectBlock
    rw [g_claims_onTop]
    exact ih

/-- The runs of the small network are connected chains. -/
theorem connectedChain_reach_of {env : Env} {start : IndexChain → ConnectState → Prop}
    (h : accepts env blocks = true) (hstart : ∀ block rest, block :: rest <:+ blocks →
      start (reach env rest).2 (onTop (reach env rest).1 (reach env rest).2.length block)) :
    ConnectedChain env stakeKernel start (reach env blocks).2 := by
  induction blocks with
  | nil => exact .nil
  | cons block rest ih =>
    rw [accepts, Bool.and_eq_true] at h
    refine .connect (ih h.1 ?_) (hstart block rest List.suffix_rfl) (nClaims_onTop _ _ _)
      (passed_iff.mp h.2)
    intro block' rest' hsuffix
    exact hstart block' rest' (hsuffix.trans (List.suffix_cons block rest))

theorem connectedChain_reach {env : Env} (h : accepts env blocks = true) :
    ConnectedChain env stakeKernel (fun _ st => st.g_claims.Sound env) (reach env blocks).2 := by
  refine connectedChain_reach_of h ?_
  intro block rest _
  rw [g_claims_onTop]
  exact sound_reach env rest

end SmallNet

open SmallNet in
theorem snapshot_payouts_capped_snapshotBlock :
    claimedTotal (reach (node false false) [snapshotBlock, genesisBlock]).2 (payToKeyHash 1) =
        10000000 ∧
      (claimedTotal (reach (node false false) [snapshotBlock, genesisBlock]).2
        (payToKeyHash 1) : ℤ) ≤ (Claim.ofCClaim (node false false)
          (mkClaim (payToKeyHash 1) (payToKeyHash 2))).getEligible (node false false) := by
  have hsource : (Claim.ofCClaim (node false false)
      (mkClaim (payToKeyHash 1) (payToKeyHash 2))).getSource = payToKeyHash 1 := by decide +kernel
  have haccepts : accepts (node false false) [snapshotBlock, genesisBlock] = true := by
    decide +kernel
  have hcapped := snapshot_payouts_capped (connectedChain_reach haccepts)
    (Claim.built_ofCClaim (mkClaim (payToKeyHash 1) (payToKeyHash 2)))
    (by decide +kernel) (by decide +kernel)
  rw [hsource] at hcapped
  exact ⟨by decide +kernel, hcapped.1⟩

/-! ## Bitcoin claims -/

namespace SmallNet

end SmallNet

end Patchcoin
