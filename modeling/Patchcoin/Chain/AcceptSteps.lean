import Patchcoin.Chain.Accept
import Patchcoin.Consensus.CheckBlockSteps

/-!
# What the acceptance of headers and blocks can do

The ways in which `AcceptBlockHeader` ends, and what `AcceptBlock` leaves behind in
each of its parts: the tests change the block index and the memory flags of the
block, the stake check marks a block, and only `storeBlock` writes to disk.
-/

namespace Patchcoin

variable {env : Env} {rules : HeaderRules} {stake : StakeRules}
variable {failure : BlockFail} {min_pow_checked : Bool} {header : CBlockHeader}

/-! ## Headers -/

/-- The tests of a new header fail with a mark in the state, unless the header does not
claim to be proof of stake. -/
theorem newHeaderTests_error {index : BlockMap} {now : ℕ}
    (h : newHeaderTests env rules index now header = .error failure) :
    (isProofOfStakeHeader header = false ∧ failure = .silent) ∨
      (isProofOfStakeHeader header = true ∧ ∃ result reason, failure = .invalid result reason) := by
  unfold newHeaderTests at h
  cases hstake : isProofOfStakeHeader header with
  | false =>
    rw [hstake] at h
    simp only [Bool.not_false, if_true, Except.error.injEq] at h
    exact .inl ⟨rfl, h.symm⟩
  | true =>
    refine .inr ⟨rfl, ?_⟩
    have hpow : checkBlockHeader env (!isProofOfStakeHeader header) header = .ok () := by
      simp [checkBlockHeader, hstake]
    simp only [hstake, Bool.not_true, Bool.false_eq_true, if_false] at h
    rw [hstake, Bool.not_true] at hpow
    simp only [hpow] at h
    split at h
    · cases h
      exact ⟨_, _, rfl⟩
    · split at h
      · cases h
        exact ⟨_, _, rfl⟩
      · split at h
        · next hcontext =>
          cases h
          unfold contextualCheckBlockHeader at hcontext
          dsimp only at hcontext
          split_ifs at hcontext
          all_goals
            cases hcontext
            exact ⟨_, _, rfl⟩
        · cases h

theorem addHeader_error {st : ChainMan}
    (h : (addHeader env header min_pow_checked st).result = .error failure) :
    failure = .invalid .BLOCK_HEADER_LOW_WORK "too-little-chainwork" := by
  unfold addHeader at h
  split_ifs at h
  cases h
  rfl

/-- `AcceptBlockHeader` fails without a mark in the state exactly for a new header that
does not claim to be proof of stake. -/
theorem acceptBlockHeader_silent_iff {now : ℕ} {header : CBlockHeader} {min_pow_checked : Bool}
    {st : ChainMan} :
    (acceptBlockHeader env rules now header min_pow_checked st).result = .error .silent ↔
      isGenesisHeader env header = false ∧ st.index (header.getHash env.host.hash256) = none ∧
        isProofOfStakeHeader header = false := by
  unfold acceptBlockHeader
  cases hgenesis : isGenesisHeader env header with
  | true =>
    constructor
    · intro h
      exact absurd (addHeader_error h) (by simp)
    · rintro ⟨h, -⟩
      cases h
  | false =>
    simp only [Bool.false_eq_true, if_false]
    cases hknown : st.index (header.getHash env.host.hash256) with
    | some pindex =>
      dsimp only
      split_ifs <;> simp
    | none =>
      cases htests : newHeaderTests env rules st.index now header with
      | error failure =>
        rcases newHeaderTests_error htests with ⟨hstake, rfl⟩ | ⟨hstake, result, reason, rfl⟩
        · simp [hstake]
        · simp [hstake]
      | ok pindexPrev =>
        have hstake : isProofOfStakeHeader header = true := by
          by_contra hnot
          rw [Bool.not_eq_true] at hnot
          simp [newHeaderTests, hnot] at htests
        dsimp only
        split
        · constructor
          · intro h
            exact absurd (addHeader_error h) (by simp)
          · rintro ⟨-, -, h⟩
            exact absurd hstake (by simp [h])
        · split_ifs <;> simp [hstake]

/-- A failure of `AcceptBlockHeader` is silent, a mark in the state or a failed assertion. -/
theorem acceptBlockHeader_error {now : ℕ} {st : ChainMan}
    (h : (acceptBlockHeader env rules now header min_pow_checked st).result = .error failure) :
    failure = .silent ∨ failure = .aborted ∨ ∃ result reason, failure = .invalid result reason := by
  unfold acceptBlockHeader at h
  split at h
  · exact .inr (.inr ⟨_, _, addHeader_error h⟩)
  · split at h
    · split at h
      · cases h
        exact .inr (.inr ⟨_, _, rfl⟩)
      · cases h
    · split at h
      · next htests =>
        cases h
        rcases newHeaderTests_error htests with ⟨-, rfl⟩ | ⟨-, hinvalid⟩
        · exact .inl rfl
        · exact .inr (.inr hinvalid)
      · split at h
        · exact .inr (.inr ⟨_, _, addHeader_error h⟩)
        · split at h
          · cases h
            exact .inr (.inr ⟨_, _, rfl⟩)
          · cases h
            exact .inr (.inl rfl)

/-- Headers change the block index only. -/
theorem acceptBlockHeader_state (now : ℕ) (header : CBlockHeader) (min_pow_checked : Bool)
    (st : ChainMan) : ∃ index, (acceptBlockHeader env rules now header min_pow_checked st).state =
      { st with index } := by
  have hadd : ∃ index, (addHeader env header min_pow_checked st).state = { st with index } := by
    unfold addHeader
    split
    · exact ⟨st.index, rfl⟩
    · exact ⟨_, rfl⟩
  unfold acceptBlockHeader
  split
  · exact hadd
  · split
    · split
      · exact ⟨st.index, rfl⟩
      · exact ⟨st.index, rfl⟩
    · split
      · exact ⟨st.index, rfl⟩
      · split
        · exact hadd
        · split
          · exact ⟨_, rfl⟩
          · exact ⟨st.index, rfl⟩

/-! ## The tests of a block -/

theorem content_contextualCheckBlock (ancestors : IndexChain) (block : CBlock) :
    (contextualCheckBlock env ancestors block).state.content = block.content := by
  refine Outcome.andThen_invariant (P := fun next : CBlock => next.content = block.content) rfl ?_
  intro _ _ hnext
  refine Outcome.andThen_invariant (P := fun next : CBlock => next.content = block.content) ?_ ?_
  · rw [content_checkWitnessMalleation]
    exact hnext
  · intro _ _ hnext
    split_ifs
    all_goals exact hnext

theorem content_blockTests (ancestors : IndexChain) (block : CBlock) :
    (blockTests env ancestors block).state.content = block.content := by
  refine Outcome.andThen_invariant (P := fun next : CBlock => next.content = block.content) ?_ ?_
  · exact content_checkBlock block
  · intro _ _ hnext
    rw [content_contextualCheckBlock]
    exact hnext

section Tests

variable {call : AcceptCall} {st : AcceptState}

/-- The node after the header of the block was accepted. -/
def afterHeader (env : Env) (rules : HeaderRules) (call : AcceptCall) (st : AcceptState) :
    ChainMan :=
  (acceptBlockHeader env rules call.now st.block.toCBlockHeader call.min_pow_checked st.man).state

/-- The tests keep the content of the block, and write nothing of the node but the block
index. -/
theorem acceptBlockTests_state (call : AcceptCall) (st : AcceptState) :
    (acceptBlockTests env rules call st).state.block.content = st.block.content ∧
      ∃ index, (acceptBlockTests env rules call st).state.man = { st.man with index } := by
  obtain ⟨index, hindex⟩ := @acceptBlockHeader_state env rules call.now st.block.toCBlockHeader
    call.min_pow_checked st.man
  unfold acceptBlockTests
  simp only [hindex]
  split
  · exact ⟨rfl, index, rfl⟩
  · split
    · exact ⟨rfl, index, rfl⟩
    · split
      · exact ⟨rfl, index, rfl⟩
      · split
        · exact ⟨content_blockTests _ _, index, rfl⟩
        · split
          · exact ⟨content_blockTests _ _, _, rfl⟩
          · exact ⟨content_blockTests _ _, index, rfl⟩

/-- A block whose tests have passed, with the state they left behind. -/
theorem acceptBlockTests_some {pindex : IndexEntry}
    (h : (acceptBlockTests env rules call st).result = .ok (some pindex)) :
    (blockTests env ((afterHeader env rules call st).index.ancestors pindex) st.block).result =
      .ok () ∧
      (acceptBlockTests env rules call st).state =
        { man := afterHeader env rules call st
          block := (blockTests env ((afterHeader env rules call st).index.ancestors pindex)
            st.block).state } := by
  unfold acceptBlockTests at h ⊢
  dsimp only at h ⊢
  split at h
  · cases h
  · split at h
    · cases h
    · next hparent =>
      split at h
      · cases h
      · next hskip =>
        split at h
        · next htests =>
          cases h
          rw [if_neg hparent, if_neg hskip]
          exact ⟨htests, rfl⟩
        · split at h
          · cases h
          · cases h

/-- The stake check and the write to disk. -/
theorem acceptBlockStake_cases (call : AcceptCall) (pindex : IndexEntry) (st : AcceptState) :
    (acceptBlockStake env stake call pindex st).state.block = st.block ∧
      ((acceptBlockStake env stake call pindex st).state.man.blockFiles = st.man.blockFiles ∨
        (acceptBlockStake env stake call pindex st).state.man.blockFiles =
          st.block :: st.man.blockFiles) := by
  unfold acceptBlockStake
  split
  · exact ⟨rfl, .inl rfl⟩
  · split
    · exact ⟨rfl, .inl rfl⟩
    · exact ⟨rfl, .inl rfl⟩
    · exact ⟨rfl, .inl rfl⟩
    · unfold storeBlock
      split
      · exact ⟨rfl, .inl rfl⟩
      · exact ⟨rfl, .inr rfl⟩

/-- `AcceptBlock` writes a block to disk only after its tests have passed. -/
theorem acceptBlock_blockFiles (call : AcceptCall) (st : AcceptState) :
    (acceptBlock env rules stake call st).state.man.blockFiles = st.man.blockFiles ∨
      ∃ ancestors, (blockTests env ancestors st.block).result = .ok () ∧
        (acceptBlock env rules stake call st).state.man.blockFiles =
          (blockTests env ancestors st.block).state :: st.man.blockFiles := by
  have hfiles : (acceptBlockTests env rules call st).state.man.blockFiles = st.man.blockFiles := by
    obtain ⟨-, index, hman⟩ := @acceptBlockTests_state env rules call st
    rw [hman]
  unfold acceptBlock
  dsimp only
  cases htests : (acceptBlockTests env rules call st).result with
  | error failure => exact .inl hfiles
  | ok entry =>
    cases entry with
    | none => exact .inl hfiles
    | some pindex =>
      obtain ⟨hpassed, hstate⟩ := acceptBlockTests_some htests
      obtain ⟨-, hsame | hmore⟩ := @acceptBlockStake_cases env stake call pindex
        (acceptBlockTests env rules call st).state
      · exact .inl (hsame.trans hfiles)
      · refine .inr ⟨_, hpassed, ?_⟩
        rw [hfiles, hstate] at hmore
        rw [hstate]
        exact hmore

/-- `AcceptBlock` keeps the content of the block object. -/
theorem content_acceptBlock (call : AcceptCall) (st : AcceptState) :
    (acceptBlock env rules stake call st).state.block.content = st.block.content := by
  obtain ⟨hcontent, -⟩ := @acceptBlockTests_state env rules call st
  unfold acceptBlock
  dsimp only
  cases htests : (acceptBlockTests env rules call st).result with
  | error failure => exact hcontent
  | ok entry =>
    cases entry with
    | none => exact hcontent
    | some pindex =>
      obtain ⟨hblock, -⟩ := @acceptBlockStake_cases env stake call pindex
        (acceptBlockTests env rules call st).state
      rw [hblock]
      exact hcontent

end Tests

end Patchcoin
