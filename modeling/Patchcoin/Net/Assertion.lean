import Patchcoin.Net.Holdings
import Patchcoin.SmallPeers

/-!
# The assertion in the handler of compact blocks

The handler asserts that `ProcessNewBlockHeaders` has set an entry, unless it has
returned because the state was marked as invalid.  `AcceptBlockHeader` has exactly
one branch that fails and marks nothing: a header that is new and does not claim to
be proof of stake.  A peer chooses the flags of the header, so that it can take this
branch whenever it can name a known parent; only a temperature at its limit stops
the handler before the assertion.
-/

namespace Patchcoin

variable {env : Env} {rules : HeaderRules} {stake : StakeRules}
variable {header : CBlockHeader} {man : ChainMan} {nPoSTemperature : Int32}

/-! ## The header -/

/-- The temperature of a peer after a header of it was refused. -/
def heated (man : ChainMan) (header : CBlockHeader) (nPoSTemperature : Int32) : Int32 :=
  (if header.hashPrevBlock ≠ man.tip ∧ man.tip ≠ 0 then nPoSTemperature + 1
    else nPoSTemperature) + POW_HEADER_COOLING

/-- One header: it is accepted or not, and a failure heats the peer. -/
theorem processNewBlockHeaders_error {now : ℕ} {failure : BlockFail}
    (h : (acceptBlockHeader env rules now header true man).result = .error failure) :
    processNewBlockHeaders env rules now man.tip [header] true man nPoSTemperature =
      .fail ((acceptBlockHeader env rules now header true man).state,
        heated man header nPoSTemperature) failure := by
  have hround : Int32.ofNat ((18 + [header].length) / 10) = 1 := by
    rw [List.length_singleton]
    decide
  unfold processNewBlockHeaders heated
  split_ifs with hdetached
  · rw [if_pos (by simpa using hdetached), hround]
    simp only [processHeaders, h]
  · rw [if_neg (by simpa using hdetached)]
    simp only [processHeaders, h]

theorem processNewBlockHeaders_ok {now : ℕ} {pindex : IndexEntry}
    (h : (acceptBlockHeader env rules now header true man).result = .ok pindex) :
    (processNewBlockHeaders env rules now man.tip [header] true man nPoSTemperature).result =
      .ok (some pindex) := by
  unfold processNewBlockHeaders
  dsimp only
  split
  · simp only [processHeaders, h]
  · simp only [processHeaders, h]

/-! ## The handler -/

@[simp] theorem NetState.temperature_setTemperature (st : NetState) (addr : NetAddr)
    (nPoSTemperature : Int32) :
    (st.setTemperature addr nPoSTemperature).temperature addr = nPoSTemperature := by
  simp [setTemperature, temperature]

theorem compactBlockAccepted_assertion_iff {call : NetCall} {cmpctblock : CompactBlock}
    {pindex : Option IndexEntry} {st : NetState} :
    (compactBlockAccepted env rules stake call cmpctblock pindex st).result =
        .error .assertion ↔
      pindex = none ∧
        (overheated (st.temperature call.addr) = false ∨ env.params.network = .test) := by
  unfold compactBlockAccepted
  by_cases hstop : (overheated (st.temperature call.addr) && env.params.network != .test) = true
  · rw [if_pos hstop]
    rw [Bool.and_eq_true, bne_iff_ne] at hstop
    simp [hstop.1, hstop.2]
  · rw [if_neg hstop]
    have hgo : overheated (st.temperature call.addr) = false ∨ env.params.network = .test := by
      by_contra hnot
      rw [not_or, Bool.not_eq_false] at hnot
      exact hstop (by simpa using hnot)
    cases pindex with
    | none => simp [hgo]
    | some pindex =>
      refine iff_of_false ?_ ?_
      · intro h
        exact absurd ((handles_compactBlockBody ..).stopped _ h) (by simp [FromProcessing])
      · rintro ⟨hnone, -⟩
        cases hnone

/-- The handler of compact blocks fails its assertion exactly for a header with a known
parent and enough work that is new and does not claim to be proof of stake, unless the
temperature of the peer stops it. -/
theorem cmpctBlock_assertion_iff (call : NetCall) (cmpctblock : CompactBlock) (st : NetState) :
    (cmpctBlock env rules stake call cmpctblock st).result = .error .assertion ↔
      call.loadingBlocks = false ∧
        (∃ prev_block, st.man.index cmpctblock.header.hashPrevBlock = some prev_block ∧
          getAntiDoSWorkThreshold rules st.man ≤
            (prev_block.nChainTrust + calculateHeadersWork cmpctblock.header) % 2 ^ 256) ∧
        (isGenesisHeader env cmpctblock.header = false ∧
          st.man.index (cmpctblock.header.getHash env.host.hash256) = none ∧
          isProofOfStakeHeader cmpctblock.header = false) ∧
        (overheated (heated st.man cmpctblock.header (st.temperature call.addr)) = false ∨
          env.params.network = .test) := by
  rw [← @acceptBlockHeader_silent_iff env rules call.now cmpctblock.header true st.man]
  unfold cmpctBlock
  by_cases hloading : call.loadingBlocks = true
  · simp [hloading]
  · rw [if_neg hloading]
    rw [Bool.not_eq_true] at hloading
    cases hprev : st.man.index cmpctblock.header.hashPrevBlock with
    | none => simp
    | some prev_block =>
      dsimp only
      by_cases hwork : (prev_block.nChainTrust + calculateHeadersWork cmpctblock.header) % 2 ^ 256 <
          getAntiDoSWorkThreshold rules st.man
      · rw [if_pos hwork]
        refine iff_of_false (by simp) ?_
        intro hall
        obtain ⟨-, ⟨found, hfound, hle⟩, -⟩ := hall
        cases hfound
        exact Nat.not_le_of_lt hwork hle
      · rw [if_neg hwork]
        simp only [hloading, Nat.le_of_not_lt hwork, Option.some.injEq, exists_eq_left', true_and]
        cases haccepted :
            (acceptBlockHeader env rules call.now cmpctblock.header true st.man).result with
        | ok pindex =>
          rw [processNewBlockHeaders_ok haccepted]
          dsimp only
          rw [compactBlockAccepted_assertion_iff]
          simp
        | error failure =>
          rw [processNewBlockHeaders_error haccepted]
          -- the three ways in which the header can fail
          rcases acceptBlockHeader_error haccepted with rfl | rfl | ⟨result, reason, rfl⟩
          · dsimp only [Outcome.fail]
            rw [compactBlockAccepted_assertion_iff, NetState.temperature_setTemperature]
            simp
          · simp [Outcome.fail]
          · simp [Outcome.fail]

/-- A compact block on top of the genesis block whose header does not claim to be proof of
stake. -/
theorem SmallNet.compact_header_without_stake :
    (cmpctBlock (SmallNet.node false false) SmallNet.headerRules SmallNet.stakeRules
      SmallNet.netCall ⟨{ SmallNet.mintedHeader 1700001000 with nFlags := 0 }, [1], []⟩
      SmallNet.genesisNet).result = .error .assertion := by
  decide +kernel

end Patchcoin
