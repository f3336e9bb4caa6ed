import Patchcoin.Chain.IndexTree
import Patchcoin.Lib.Run
import Patchcoin.Stake.Incomplete
import Patchcoin.Stake.Schedule

/-!
# Accepting a block again after the disk failed

`PeercoinContextualBlockChecks` writes the stake of a block into its entry, and into the set
of stakes, before `AcceptBlock` saves the block to disk.  If the save fails, the entry keeps
the stake.  A second attempt finds the stake of the block in the entry of the block itself,
takes it for a duplicate and marks the block as failed.  A restart does not help: the set of
stakes is empty then, but the entry was written to disk with its stake.

## Strategy

The second attempt differs from the first in the entry of the block only, which is written
again in its place (`BlockMap.Rewrites`), and no ancestor of the block is that entry.  So the
header is known, all tests end as before, and the next stake modifier and the checksum are
the same (`stakeCheck_again`).  What remains is the duplicate, which needs a proof of stake
and an entry that is flagged as one.  `ChainMan.Proper` collects what a node keeps about
its block index for this: places, heights and that flag.
-/

namespace Patchcoin

open CBlockIndex

variable {env : Env} {rules : HeaderRules} {stake : StakeRules}
variable {min_pow_checked : Bool} {header : CBlockHeader}

/-! ## Headers that are known -/

theorem addHeader_of_ok {st : ChainMan} {pindex : IndexEntry}
    (h : (addHeader env header min_pow_checked st).result = .ok pindex) :
    min_pow_checked = true ∧ pindex = (st.index.addToBlockIndex env.host.hash256 header).2 ∧
      (addHeader env header min_pow_checked st).state =
        { st with index := (st.index.addToBlockIndex env.host.hash256 header).1 } := by
  unfold addHeader at h ⊢
  cases hpow : min_pow_checked with
  | false =>
    rw [hpow] at h
    cases h
  | true =>
    rw [hpow] at h
    exact ⟨rfl, (Except.ok.inj h).symm, rfl⟩

/-- A header that is new has an entry without a failure. -/
theorem hasFailed_addHeader {st : ChainMan} {pindex : IndexEntry}
    (hnew : st.index (header.getHash env.host.hash256) = none)
    (h : (addHeader env header min_pow_checked st).result = .ok pindex) :
    pindex.hasFailed = false := by
  obtain ⟨-, rfl, -⟩ := addHeader_of_ok h
  unfold BlockMap.addToBlockIndex
  rw [hnew]
  rfl

/-- An accepted header has its entry, and a header whose entry is no more failed than that is
accepted again without a change. -/
theorem acceptBlockHeader_of_ok {now : ℕ} {st : ChainMan} {pindex : IndexEntry} {hash : Uint256}
    (hkeyed : st.index.Keyed) (hhash : header.getHash env.host.hash256 = hash)
    (h : (acceptBlockHeader env rules now header min_pow_checked st).result = .ok pindex) :
    (acceptBlockHeader env rules now header min_pow_checked st).state.index hash = some pindex ∧
      pindex.hashBlock = hash ∧
      ∀ (again : ChainMan) (written : IndexEntry), again.index hash = some written →
        written.hasFailed = pindex.hasFailed →
        acceptBlockHeader env rules now header min_pow_checked again = ⟨again, .ok written⟩ := by
  have hadd (hok : (addHeader env header min_pow_checked st).result = .ok pindex) :
      (addHeader env header min_pow_checked st).state.index hash = some pindex ∧
        pindex.hashBlock = hash := by
    obtain ⟨-, hpindex, hstate⟩ := addHeader_of_ok hok
    rw [hstate, hpindex, ← hhash]
    exact BlockMap.addToBlockIndex_self hkeyed env.host.hash256 header
  have hagain (hother : ¬ isGenesisHeader env header = true) (again : ChainMan)
      (written : IndexEntry) (hwritten : again.index hash = some written)
      (hvalid : ¬ written.hasFailed = true) :
      acceptBlockHeader env rules now header min_pow_checked again = ⟨again, .ok written⟩ := by
    unfold acceptBlockHeader
    rw [if_neg hother, hhash, hwritten]
    exact if_neg hvalid
  generalize haccepted : acceptBlockHeader env rules now header min_pow_checked st = accepted at h ⊢
  unfold acceptBlockHeader at haccepted
  rw [hhash] at haccepted
  split_ifs at haccepted with hgenesis
  · subst haccepted
    obtain ⟨rfl, -, -⟩ := addHeader_of_ok h
    refine ⟨(hadd h).1, (hadd h).2, fun again written hwritten _ => ?_⟩
    unfold acceptBlockHeader addHeader BlockMap.addToBlockIndex
    rw [if_pos hgenesis, hhash, hwritten]
    rfl
  · split at haccepted
    · next hknown =>
      split_ifs at haccepted with hfailed
      · subst haccepted
        cases h
      · subst haccepted
        cases h
        exact ⟨hknown, hkeyed _ _ hknown, fun again written hwritten hsame =>
          hagain hgenesis again written hwritten (hsame ▸ hfailed)⟩
    · next hnew =>
      split at haccepted
      · subst haccepted
        cases h
      · split at haccepted
        · subst haccepted
          have hvalid := hasFailed_addHeader (hhash ▸ hnew) h
          exact ⟨(hadd h).1, (hadd h).2, fun again written hwritten hsame =>
            hagain hgenesis again written hwritten (by rw [hsame, hvalid]; simp)⟩
        · split_ifs at haccepted
          all_goals
            subst haccepted
            cases h

/-! ## The tests of the second attempt -/

/-- The tests end with an entry if the header has it, its parent is valid, the block is to be
processed, and its own tests pass. -/
theorem acceptBlockTests_eq_some_iff {call : AcceptCall} {st : AcceptState} {pindex : IndexEntry} :
    (acceptBlockTests env rules call st).result = .ok (some pindex) ↔
      (acceptBlockHeader env rules call.now st.block.toCBlockHeader call.min_pow_checked
          st.man).result = .ok pindex ∧
        ((pindex.pprev.bind (afterHeader env rules call st).index).map fun pprev =>
          !pprev.isValid BLOCK_VALID_TRANSACTIONS).getD false = false ∧
        skipsBlock rules call (afterHeader env rules call st) pindex = false ∧
        (blockTests env ((afterHeader env rules call st).index.ancestors pindex)
          st.block).result = .ok () := by
  unfold acceptBlockTests afterHeader
  dsimp only
  cases hheader : (acceptBlockHeader env rules call.now st.block.toCBlockHeader
      call.min_pow_checked st.man).result with
  | error failure => simp
  | ok found =>
    dsimp only
    constructor
    · intro h
      split_ifs at h with hparent hskip
      · cases h
      · cases h
      · split at h
        · next htests =>
          cases h
          exact ⟨rfl, Bool.eq_false_iff.mpr hparent, Bool.eq_false_iff.mpr hskip, htests⟩
        · split_ifs at h
          · cases h
          · cases h
    · rintro ⟨hfound, hparent, hskip, htests⟩
      cases hfound
      rw [hparent, hskip]
      simp only [Bool.false_eq_true, if_false, htests]

section Again

variable {index : BlockMap} {entry written : IndexEntry}

/-- The entry of a parent is not the one that is written again. -/
theorem BlockMap.Rewrites.parent (hlinked : index.Linked) (h : index.Rewrites entry written) :
    written.pprev.bind (index.insert written) = entry.pprev.bind index := by
  rw [h.pprev]
  cases hprev : entry.pprev with
  | none => rfl
  | some prev =>
    obtain ⟨parent, hparent, hheight⟩ := hlinked _ entry prev h.known hprev
    refine h.insert_of_ne ?_
    rintro rfl
    rw [h.known] at hparent
    cases hparent
    omega

/-- What is read of an entry that is written again. -/
structure IndexEntry.SameWork (entry written : IndexEntry) : Prop where
  nStatus : written.nStatus = entry.nStatus
  nTx : written.nTx = entry.nTx
  nChainTrust : written.nChainTrust = entry.nChainTrust

theorem skipsBlock_again {call : AcceptCall} {man : ChainMan}
    (h : man.index.Rewrites entry written) (hwork : entry.SameWork written)
    (setStakeSeen : List (COutPoint × UInt32)) (m_failed_blocks : List Uint256) :
    skipsBlock rules call
        { man with index := man.index.insert written, setStakeSeen, m_failed_blocks } written =
      skipsBlock rules call man entry := by
  have htip {α : Type} (f : ℕ → ℕ → α) :
      (man.index.insert written man.tip).map (fun tip => f tip.nChainTrust tip.nHeight) =
        (man.index man.tip).map fun tip => f tip.nChainTrust tip.nHeight := by
    by_cases hsame : man.tip = entry.hashBlock
    · rw [hsame, h.insert_self, h.known, Option.map_some, Option.map_some, hwork.nChainTrust,
        h.nHeight]
    · rw [h.insert_of_ne hsame]
  have htrust := htip fun nChainTrust _ => decide (entry.nChainTrust < nChainTrust)
  have hheight := htip fun _ nHeight => (nHeight : ℤ)
  unfold skipsBlock
  dsimp only
  rw [hwork.nStatus, hwork.nTx, hwork.nChainTrust, h.nHeight, htrust, hheight]

end Again

/-! ## The stake check of the second attempt -/

section Stake

variable {kernel kernel' : Kernel} {ancestors ancestors' : IndexChain}
  {seen seen' seenAgain : List (COutPoint × UInt32)} {pindex checked : CBlockIndex} {block : CBlock}

/-- A check that passes has a verdict, which it writes. -/
theorem stakeCheck_of_ok (hbit : ∀ block, kernel.getStakeEntropyBit block ≤ 1)
    (h : stakeCheck kernel ancestors seen pindex block = .ok (checked, seen')) :
    ∃ verdict, stakeVerdict kernel ancestors seen pindex block = .ok verdict ∧
      kernel.checkStakeModifierCheckpoints pindex.nHeight
        (stakeChecksum kernel ancestors pindex verdict) = true ∧
      checked = { pindex.staked block verdict with
        nStakeModifierChecksum := stakeChecksum kernel ancestors pindex verdict } := by
  rw [stakeCheck_eq hbit] at h
  cases hverdict : stakeVerdict kernel ancestors seen pindex block with
  | error failure =>
    rw [hverdict] at h
    cases h
  | ok verdict =>
    rw [hverdict] at h
    dsimp only at h
    split_ifs at h with hpoint
    exact ⟨verdict, rfl, hpoint, (Prod.mk.inj (Except.ok.inj h)).1.symm⟩

/-- What the check leaves behind in an entry. -/
structure CBlockIndex.Staked (pindex : CBlockIndex) (block : CBlock) (checked : CBlockIndex) :
    Prop where
  hashBlock : checked.hashBlock = pindex.hashBlock
  nHeight : checked.nHeight = pindex.nHeight
  nTime : checked.nTime = pindex.nTime
  nStatus : checked.nStatus = pindex.nStatus
  isProofOfStake : pindex.isProofOfStake = true → checked.isProofOfStake = true
  prevoutStake : block.isProofOfStake = true → checked.prevoutStake = block.getProofOfStake.1

theorem staked_of_ok (hbit : ∀ block, kernel.getStakeEntropyBit block ≤ 1)
    (h : stakeCheck kernel ancestors seen pindex block = .ok (checked, seen')) :
    pindex.Staked block checked := by
  obtain ⟨verdict, -, -, rfl⟩ := stakeCheck_of_ok hbit h
  refine ⟨rfl, rfl, rfl, rfl, fun hflag => ?_, fun hstake => ?_⟩
  · show ((pindex.nFlags ||| verdict.flags) &&& CBlockIndex.BLOCK_PROOF_OF_STAKE != 0) = true
    rw [flag_or, Bool.or_eq_true]
    exact .inl hflag
  · show (if block.isProofOfStake then block.getProofOfStake.1 else pindex.prevoutStake) = _
    rw [if_pos hstake]

/-- A proof of stake is a duplicate of itself. -/
theorem stakeCheck_again_of_stake (hstake : block.isProofOfStake = true)
    (hflag : checked.isProofOfStake = true)
    (hprevout : checked.prevoutStake = block.getProofOfStake.1) :
    ∃ failure, stakeCheck kernel ancestors seen checked block = .error failure := by
  have hcheck : ∃ failure, checkStake kernel ancestors (stakeState seen checked block) =
      .error failure := by
    unfold checkStake stakeState
    rw [hstake]
    simp only [Bool.not_true, Bool.false_eq_true, if_false]
    split
    · exact ⟨_, rfl⟩
    · rw [hflag, hprevout]
      simp
  obtain ⟨failure, hfailure⟩ := hcheck
  refine ⟨failure, ?_⟩
  unfold stakeCheck peercoinContextualBlockChecks
  rw [hfailure]
  rfl

/-- Without a proof of stake the second check finds and writes what the first did. -/
theorem stakeCheck_again_of_work {view view' : StakeView} {g_txindex g_txindex' : Option TxIndex}
    {rand rand' : ℕ → ℕ} (hwork : block.isProofOfStake = false)
    (hnext : computeNextStakeModifier env stake rand' view'.lookup checked ancestors =
      computeNextStakeModifier env stake rand view.lookup pindex ancestors)
    (h : stakeCheck (stakeKernel env stake view g_txindex rand) ancestors seen pindex block =
      .ok (checked, seen')) :
    stakeCheck (stakeKernel env stake view' g_txindex' rand') ancestors seenAgain checked block =
      .ok (checked, seenAgain) := by
  obtain ⟨verdict, hverdict, hpoint, hchecked⟩ := stakeCheck_of_ok (getStakeEntropyBit_le_one env) h
  have hagain : stakeVerdict (stakeKernel env stake view' g_txindex' rand') ancestors seenAgain
      checked block = .ok verdict := by
    rw [← hverdict]
    unfold stakeVerdict checkStake stakeState stakeKernel
    rw [hwork]
    simp only [Bool.not_false, if_true, hnext]
  have hflags : checked.nFlags ||| verdict.flags = pindex.nFlags ||| verdict.flags := by
    rw [hchecked]
    show (pindex.nFlags ||| verdict.flags) ||| verdict.flags = _
    rw [UInt32.or_assoc, UInt32.or_self]
  have hchecksum : stakeChecksum (stakeKernel env stake view' g_txindex' rand') ancestors checked
      verdict = stakeChecksum (stakeKernel env stake view g_txindex rand) ancestors pindex
        verdict := by
    unfold stakeChecksum
    rw [hflags]
    rfl
  have hheight : checked.nHeight = pindex.nHeight := by rw [hchecked]; rfl
  have hwritten : checked.nStakeModifierChecksum =
      stakeChecksum (stakeKernel env stake view g_txindex rand) ancestors pindex verdict := by
    rw [hchecked]
  have hpoint' : (stakeKernel env stake view' g_txindex' rand').checkStakeModifierCheckpoints
      pindex.nHeight checked.nStakeModifierChecksum = true := by
    rw [hwritten]
    exact hpoint
  have hseen : seenAfter seenAgain block checked.nTime = seenAgain := by
    unfold seenAfter
    rw [hwork]
    rfl
  have hstaked : checked.staked block verdict = checked := by
    unfold staked
    rw [hwork, hflags, hchecked]
    simp only [staked, hwork, Bool.false_eq_true, if_false]
  rw [stakeCheck_eq (getStakeEntropyBit_le_one env), hagain]
  dsimp only
  rw [hchecksum, hheight, ← hwritten, if_pos hpoint', hstaked, hseen]

end Stake

/-! ## Nodes -/

/-- What a node keeps about its block index.  A header other than that of the genesis block
is accepted with the flag of a proof of stake only. -/
structure BlockMap.Proper (genesis : Uint256) (index : BlockMap) : Prop where
  keyed : index.Keyed
  linked : index.Linked
  flagged : ∀ hash entry, index hash = some entry → hash ≠ genesis → entry.isProofOfStake = true

section Nodes

variable {genesis : Uint256} {index : BlockMap} {entry written : IndexEntry}
variable {header : CBlockHeader}

/-- An entry is written again with the same weight in the choice of a chain. -/
structure BlockMap.Updates (index : BlockMap) (entry written : IndexEntry) : Prop
    extends index.Rewrites entry written where
  nBits : written.nBits = entry.nBits
  nChainTrust : written.nChainTrust = entry.nChainTrust
  isProofOfStake : entry.isProofOfStake = true → written.isProofOfStake = true

theorem BlockMap.Updates.ofStatus (hknown : index entry.hashBlock = some entry)
    (nStatus : BlockStatus) : index.Updates entry { entry with nStatus } :=
  ⟨⟨hknown, rfl, rfl, rfl⟩, rfl, rfl, id⟩

/-- A property of block indexes that survives all that `AcceptBlock` does: a new entry for the
genesis block or for a proof of stake on a known parent, and an update. -/
structure BlockMap.Maintained (env : Env) (I : BlockMap → Prop) : Prop where
  keyed {index : BlockMap} : I index → index.Keyed
  add {index : BlockMap} {header : CBlockHeader} : I index →
    (header.getHash env.host.hash256 ≠ env.params.hashGenesisBlock →
      isProofOfStakeHeader header = true ∧ ∃ parent, index header.hashPrevBlock = some parent) →
    I (index.addToBlockIndex env.host.hash256 header).1
  update {index : BlockMap} {entry written : IndexEntry} : I index → index.Updates entry written →
    I (index.insert written)

theorem BlockMap.Proper.update (hproper : index.Proper genesis) (h : index.Updates entry written) :
    (index.insert written).Proper genesis where
  keyed := hproper.keyed.insert written
  linked := hproper.linked.rewrite h.toRewrites
  flagged := by
    intro hash found hfound hother
    rcases h.cases hfound with hold | ⟨rfl, rfl⟩
    · exact hproper.flagged hash found hold hother
    · exact h.isProofOfStake (hproper.flagged _ entry h.known hother)

theorem BlockMap.Proper.addToBlockIndex (hproper : index.Proper genesis)
    (hash256 : List UInt8 → Uint256)
    (hflag : header.getHash hash256 ≠ genesis → isProofOfStakeHeader header = true) :
    (index.addToBlockIndex hash256 header).1.Proper genesis where
  keyed := hproper.keyed.addToBlockIndex hash256 header
  linked := hproper.linked.addToBlockIndex hash256 header
  flagged := by
    intro hash found hfound hother
    rcases BlockMap.addToBlockIndex_cases hfound with hold | ⟨rfl, rfl⟩
    · exact hproper.flagged hash found hold hother
    · exact hflag hother

theorem BlockMap.Proper.maintained :
    BlockMap.Maintained env (BlockMap.Proper env.params.hashGenesisBlock) where
  keyed hproper := hproper.keyed
  add hproper hflag := hproper.addToBlockIndex env.host.hash256 fun hother => (hflag hother).1
  update hproper h := hproper.update h

namespace BlockMap.Maintained

variable {I : BlockMap → Prop} (h : Maintained env I)
include h

theorem markFailedChildren (hindex : I index) (hashes : List Uint256) :
    I (markFailedChildren index hashes) := by
  unfold Patchcoin.markFailedChildren
  induction hashes generalizing index with
  | nil => exact hindex
  | cons hash rest ih =>
    rw [List.foldl_cons]
    refine ih ?_
    split
    · exact hindex
    · next entry hentry =>
      have hknown : index entry.hashBlock = some entry := by
        rw [h.keyed hindex hash entry hentry, hentry]
      exact h.update hindex (.ofStatus hknown _)

/-- Accepting a header keeps the property. -/
theorem acceptBlockHeader {now : ℕ} {min_pow_checked : Bool} {st : ChainMan}
    (hindex : I st.index) :
    I (acceptBlockHeader env rules now header min_pow_checked st).state.index := by
  have hadd (hgoes : header.getHash env.host.hash256 ≠ env.params.hashGenesisBlock →
      isProofOfStakeHeader header = true ∧ ∃ parent, st.index header.hashPrevBlock = some parent) :
      I (addHeader env header min_pow_checked st).state.index := by
    unfold addHeader
    split_ifs
    · exact hindex
    · exact h.add hindex hgoes
  unfold Patchcoin.acceptBlockHeader
  split_ifs with hgenesis
  · exact hadd fun hother => absurd (beq_iff_eq.mp hgenesis) hother
  · split
    · split_ifs
      · exact hindex
      · exact hindex
    · split
      · exact hindex
      · next htests =>
        unfold newHeaderTests at htests
        split_ifs at htests with hflag
        split
        · refine hadd fun _ => ⟨by simpa using hflag, ?_⟩
          split at htests
          · cases htests
          · split at htests
            · cases htests
            · next parent hparent => exact ⟨parent, hparent⟩
        · split_ifs
          · exact h.markFailedChildren hindex _
          · exact hindex

/-- So does accepting a block. -/
theorem acceptBlockTests {call : AcceptCall} {st : AcceptState} (hindex : I st.man.index) :
    I (acceptBlockTests env rules call st).state.man.index := by
  have hheader := @h.acceptBlockHeader env rules st.block.toCBlockHeader I call.now
    call.min_pow_checked st.man hindex
  unfold Patchcoin.acceptBlockTests
  dsimp only
  split
  · exact hheader
  · next pindex hok =>
    obtain ⟨hfound, hhash, -⟩ := acceptBlockHeader_of_ok (h.keyed hindex) rfl hok
    split_ifs
    · exact hheader
    · exact hheader
    · split
      · exact hheader
      · split_ifs
        · exact h.update hheader (.ofStatus (hhash ▸ hfound) _)
        · exact hheader

end BlockMap.Maintained

end Nodes

/-! ## The two attempts -/

section Attempts

variable {call : AcceptCall} {st : AcceptState} {pindex : IndexEntry} {checked : CBlockIndex}
  {seen : List (COutPoint × UInt32)}

/-- The block object after its tests. -/
def blockAfterTests (env : Env) (rules : HeaderRules) (call : AcceptCall) (st : AcceptState)
    (pindex : IndexEntry) : CBlock :=
  (blockTests env ((afterHeader env rules call st).index.ancestors pindex) st.block).state

theorem isProofOfStake_blockAfterTests :
    (blockAfterTests env rules call st pindex).isProofOfStake = st.block.isProofOfStake := by
  have hvtx : (blockAfterTests env rules call st pindex).vtx = st.block.vtx :=
    CBlock.vtx_eq_of_content_eq (content_blockTests _ st.block)
  unfold CBlock.isProofOfStake
  rw [hvtx]

/-- A call of `AcceptBlock` passes all checks and comes to the write to disk. -/
structure Passes (env : Env) (rules : HeaderRules) (stake : StakeRules) (call : AcceptCall)
    (st : AcceptState) (pindex : IndexEntry) (checked : CBlockIndex)
    (seen : List (COutPoint × UInt32)) : Prop where
  tests : (acceptBlockTests env rules call st).result = .ok (some pindex)
  bounds : readsOutOfBounds env stake call (afterHeader env rules call st) pindex
    (blockAfterTests env rules call st pindex) = false
  stake : stakeCheck (call.kernel env stake (afterHeader env rules call st))
    ((afterHeader env rules call st).index.ancestors pindex)
    (afterHeader env rules call st).setStakeSeen pindex.toCBlockIndex
    (blockAfterTests env rules call st pindex) = .ok (checked, seen)

/-- From the tests on. -/
theorem acceptBlock_of_tests {after : Outcome AcceptState KernelFail IndexEntry}
    (h : (acceptBlockTests env rules call st).result = .ok (some pindex))
    (hafter : acceptBlockStake env stake call pindex
      ⟨afterHeader env rules call st, blockAfterTests env rules call st pindex⟩ = after) :
    acceptBlock env rules stake call st = ⟨after.state, after.result.map some⟩ := by
  obtain ⟨-, hstate⟩ := acceptBlockTests_some h
  unfold acceptBlock
  dsimp only
  rw [h, hstate, ← hafter]
  rfl

theorem acceptBlock_of_passes {stored : Outcome AcceptState KernelFail IndexEntry}
    (h : Passes env rules stake call st pindex checked seen)
    (hstored : storeBlock call pindex checked
      ⟨{ afterHeader env rules call st with setStakeSeen := seen },
        blockAfterTests env rules call st pindex⟩ = stored) :
    acceptBlock env rules stake call st = ⟨stored.state, stored.result.map some⟩ := by
  refine acceptBlock_of_tests h.tests ?_
  unfold acceptBlockStake
  rw [h.bounds, h.stake]
  exact hstored

theorem acceptBlockStake_of_error {failure : BlockFail}
    (h : stakeCheck (call.kernel env stake st.man) (st.man.index.ancestors pindex)
      st.man.setStakeSeen pindex.toCBlockIndex st.block = .error failure) :
    ∃ reported, (acceptBlockStake env stake call pindex st).result = .error reported := by
  unfold acceptBlockStake
  split_ifs
  · exact ⟨_, rfl⟩
  · rw [h]
    split
    · exact ⟨_, rfl⟩
    · exact ⟨_, rfl⟩
    · exact ⟨_, rfl⟩
    · next hok => cases hok

/-- What ends with an entry has passed all checks. -/
theorem passes_of_ok {entry : IndexEntry}
    (h : (acceptBlock env rules stake call st).result = .ok (some entry)) :
    ∃ pindex checked seen, Passes env rules stake call st pindex checked seen := by
  obtain ⟨pindex, htests, hbounds, ⟨checked, seen⟩, hstake⟩ :=
    @passesStake_of_stored env rules stake call st (by rw [h]; rfl)
  obtain ⟨-, hstate⟩ := acceptBlockTests_some htests
  rw [hstate] at hbounds hstake
  exact ⟨pindex, checked, seen, htests, hbounds, hstake⟩

theorem CBlockIndex.exists_received (pindex : CBlockIndex) :
    ∃ nStatus, pindex.received = { pindex with nStatus } ∧ nStatus.haveData = true ∧
      pindex.received.hasFailed = pindex.hasFailed := by
  unfold received raiseValidity hasFailed
  dsimp only
  split_ifs
  · exact ⟨_, rfl, rfl, rfl⟩
  · exact ⟨_, rfl, rfl, rfl⟩

theorem BlockMap.Maintained.acceptBlock {I : BlockMap → Prop} (h : Maintained env I)
    (hindex : I st.man.index) : I (acceptBlock env rules stake call st).state.man.index := by
  have htested := @h.acceptBlockTests env rules I call st hindex
  unfold Patchcoin.acceptBlock
  dsimp only
  split
  · exact htested
  · exact htested
  · next pindex htests =>
    have hheader : I (afterHeader env rules call st).index := h.acceptBlockHeader hindex
    obtain ⟨hok, -⟩ := acceptBlockTests_eq_some_iff.mp htests
    obtain ⟨hfound, hhash, -⟩ := acceptBlockHeader_of_ok (h.keyed hindex) rfl hok
    have hknown : (afterHeader env rules call st).index pindex.hashBlock = some pindex := by
      rw [hhash]
      exact hfound
    rw [(acceptBlockTests_some htests).2]
    unfold acceptBlockStake
    split_ifs
    · exact hheader
    · split
      · exact hheader
      · exact hheader
      · exact h.update hheader (.ofStatus hknown _)
      · next checked seen hstake =>
        have hstaked := staked_of_ok (getStakeEntropyBit_le_one env) hstake
        obtain ⟨verdict, -, -, hchecked⟩ := stakeCheck_of_ok (getStakeEntropyBit_le_one env) hstake
        have hupdates : (afterHeader env rules call st).index.Updates pindex
            { pindex with toCBlockIndex := checked } :=
          ⟨⟨hknown, hstaked.hashBlock, rfl, hstaked.nHeight⟩, by rw [hchecked]; rfl, rfl,
            hstaked.isProofOfStake⟩
        unfold storeBlock
        split
        · exact h.update hheader hupdates
        · obtain ⟨nStatus, hreceived, -⟩ := checked.exists_received
          unfold IndexEntry.accepted
          rw [hreceived]
          exact h.update hheader ⟨⟨hknown, hupdates.hashBlock, rfl, hupdates.nHeight⟩,
            hupdates.nBits, rfl, hupdates.isProofOfStake⟩

/-- What happens to a node: blocks arrive, another chain becomes active, it is restarted. -/
inductive NodeEvent
  | arrives (call : AcceptCall) (block : CBlock)
  | activated (tip : Uint256)
  | restarts

/-- The node after a shutdown that wrote the block index to disk, and a restart. -/
def ChainMan.restarted (man : ChainMan) : ChainMan :=
  { man with setStakeSeen := [], m_failed_blocks := [] }

def ChainMan.step (env : Env) (rules : HeaderRules) (stake : StakeRules) (man : ChainMan) :
    NodeEvent → ChainMan
  | .arrives call block => (acceptBlock env rules stake call ⟨man, block⟩).state.man
  | .activated tip => { man with tip }
  | .restarts => man.restarted

theorem BlockMap.Maintained.step {I : BlockMap → Prop} (h : Maintained env I) (man : ChainMan)
    (event : NodeEvent) (hindex : I man.index) : I (man.step env rules stake event).index := by
  cases event with
  | arrives call block => exact @h.acceptBlock env rules stake call ⟨man, block⟩ I hindex
  | activated tip => exact hindex
  | restarts => exact hindex

/-- Every node that starts with an empty block index has a proper one. -/
theorem proper_of_run {start : ChainMan} (hstart : start.index = fun _ => none)
    (events : List NodeEvent) :
    (Run.after (ChainMan.step env rules stake) events start).index.Proper
      env.params.hashGenesisBlock := by
  refine Run.after_invariant BlockMap.Proper.maintained.step ?_
  rw [hstart]
  exact ⟨fun _ _ h => (nomatch h), fun _ _ _ h => (nomatch h), fun _ _ h => (nomatch h)⟩

/-- The call passed all checks and failed because the block was not saved. -/
def FailsToSave (env : Env) (rules : HeaderRules) (stake : StakeRules) (call : AcceptCall)
    (st : AcceptState) : Prop :=
  (∃ failure, call.saveBlockToDisk = .error failure) ∧
    ∃ entry, (acceptBlock env rules stake { call with saveBlockToDisk := .ok () } st).result =
      .ok (some entry)

/-- A later call at the same time, with other random numbers, which can save the block. -/
def AcceptCall.again (call : AcceptCall) (rand : ℕ → ℕ) : AcceptCall :=
  { call with rand, saveBlockToDisk := .ok () }

/-- The same block reaches the node that the failed call has left behind, in the same
process or after a restart. -/
def retried (env : Env) (rules : HeaderRules) (stake : StakeRules) (call : AcceptCall)
    (st : AcceptState) (restart : Bool) : AcceptState :=
  let man := (acceptBlock env rules stake call st).state.man
  ⟨if restart then man.restarted else man, st.block⟩

/-- The block is stored, and its entry is not marked as failed. -/
def Stores (before : ChainMan) (outcome : Outcome AcceptState KernelFail (Option IndexEntry)) :
    Prop :=
  ∃ entry, outcome.result = .ok (some entry) ∧
    outcome.state.man.index entry.hashBlock = some entry ∧ entry.nStatus.haveData = true ∧
    outcome.state.man.blockFiles = outcome.state.block :: before.blockFiles ∧
    (before.index entry.hashBlock).map (fun found => found.hasFailed) = some entry.hasFailed

/-- What passes all checks is stored if the disk works. -/
theorem stores_of_passes (hsave : call.saveBlockToDisk = .ok ())
    (h : Passes env rules stake call st pindex checked seen)
    (hheader : afterHeader env rules call st = st.man)
    (hknown : st.man.index checked.hashBlock = some pindex)
    (hstatus : checked.nStatus = pindex.nStatus) :
    Stores st.man (acceptBlock env rules stake call st) := by
  obtain ⟨nStatus, hreceived, hdata, hfailed⟩ := checked.exists_received
  have hhash : checked.received.hashBlock = checked.hashBlock := by rw [hreceived]
  have hhave : checked.received.nStatus.haveData = true := by rw [hreceived]; exact hdata
  rw [acceptBlock_of_passes h rfl, hheader]
  unfold storeBlock
  rw [hsave]
  refine ⟨_, rfl, BlockMap.insert_self _ _, hhave, rfl, ?_⟩
  show (st.man.index checked.received.hashBlock).map _ = some checked.received.hasFailed
  rw [hhash, hknown, hfailed]
  show some pindex.hasFailed = some checked.hasFailed
  unfold hasFailed
  rw [hstatus]

/-- The node with the stake of a block in its entry, while the block is not stored.  The two
sets may have been emptied since. -/
def leftBehind (man : ChainMan) (pindex : IndexEntry) (checked : CBlockIndex)
    (setStakeSeen : List (COutPoint × UInt32)) (m_failed_blocks : List Uint256) : ChainMan :=
  { man with
    index := man.index.insert { pindex with toCBlockIndex := checked }
    setStakeSeen
    m_failed_blocks }

theorem man_of_error {failure : BlockFail} (hsave : call.saveBlockToDisk = .error failure)
    (h : Passes env rules stake call st pindex checked seen) :
    (acceptBlock env rules stake call st).state.man =
      leftBehind (afterHeader env rules call st) pindex checked seen
        (afterHeader env rules call st).m_failed_blocks := by
  rw [acceptBlock_of_passes h rfl]
  unfold storeBlock
  rw [hsave]
  rfl

/-- The second attempt: the entry that the first one has written is found, and the tests pass
as before. -/
structure Repeats (env : Env) (rules : HeaderRules) (call : AcceptCall) (st : AcceptState)
    (pindex : IndexEntry) (man : ChainMan) (rand : ℕ → ℕ) (written : IndexEntry) : Prop where
  rewrites : (afterHeader env rules call st).index.Rewrites pindex written
  header : afterHeader env rules (call.again rand) ⟨man, st.block⟩ = man
  tests : (acceptBlockTests env rules (call.again rand) ⟨man, st.block⟩).result =
    .ok (some written)
  ancestors : man.index.ancestors written = (afterHeader env rules call st).index.ancestors pindex
  block : blockAfterTests env rules (call.again rand) ⟨man, st.block⟩ written =
    blockAfterTests env rules call st pindex

section

variable {setStakeSeen : List (COutPoint × UInt32)} {m_failed_blocks : List Uint256}
  {man : ChainMan}
variable (hproper : st.man.index.Proper env.params.hashGenesisBlock)
  (h : Passes env rules stake call st pindex checked seen)
  (hman : leftBehind (afterHeader env rules call st) pindex checked setStakeSeen m_failed_blocks =
    man)
include hproper h

theorem staked_of_passes :
    pindex.toCBlockIndex.Staked (blockAfterTests env rules call st pindex) checked ∧
      (afterHeader env rules call st).index (st.block.toCBlockHeader.getHash env.host.hash256) =
        some pindex ∧
      (afterHeader env rules call st).index.Rewrites pindex
        { pindex with toCBlockIndex := checked } := by
  obtain ⟨hheader, -⟩ := acceptBlockTests_eq_some_iff.mp h.tests
  obtain ⟨hindex, hhash, -⟩ := acceptBlockHeader_of_ok hproper.keyed rfl hheader
  have hstaked := staked_of_ok (getStakeEntropyBit_le_one env) h.stake
  exact ⟨hstaked, hindex, hhash ▸ hindex, hstaked.hashBlock, rfl, hstaked.nHeight⟩

include hman

theorem repeats_of_passes (rand : ℕ → ℕ) :
    Repeats env rules call st pindex man rand { pindex with toCBlockIndex := checked } := by
  obtain ⟨hheader, hparent, hskip, htests⟩ := acceptBlockTests_eq_some_iff.mp h.tests
  obtain ⟨-, hhash, hagain⟩ := acceptBlockHeader_of_ok hproper.keyed rfl hheader
  obtain ⟨hstaked, -, hrewrites⟩ := staked_of_passes hproper h
  have hlinked : (afterHeader env rules call st).index.Linked :=
    (BlockMap.Proper.maintained.acceptBlockHeader hproper).linked
  have hancestors := hrewrites.ancestors hlinked
  have hfailed : checked.hasFailed = pindex.hasFailed := by
    unfold hasFailed
    rw [hstaked.nStatus]
  have hinsert : man.index = (afterHeader env rules call st).index.insert
      { pindex with toCBlockIndex := checked } := by
    rw [← hman]
    rfl
  have hknown : man.index (st.block.toCBlockHeader.getHash env.host.hash256) =
      some { pindex with toCBlockIndex := checked } := by
    rw [hinsert, ← hhash]
    exact hrewrites.insert_self
  have haccepted := hagain man _ hknown hfailed
  have hafter : afterHeader env rules (call.again rand) ⟨man, st.block⟩ = man :=
    congrArg Outcome.state haccepted
  refine ⟨hrewrites, hafter, ?_, ?_, ?_⟩
  · rw [acceptBlockTests_eq_some_iff, hafter, hinsert, hrewrites.parent hlinked, hancestors]
    refine ⟨congrArg Outcome.result haccepted, hparent, ?_, htests⟩
    rw [← hman]
    exact (skipsBlock_again hrewrites ⟨hstaked.nStatus, rfl, rfl⟩ _ _).trans hskip
  · rw [hinsert, hancestors]
  · unfold blockAfterTests
    rw [hafter, hinsert, hancestors]

/-- A proof of stake fails in every later attempt. -/
theorem not_stores_of_stake (hother : isGenesisHeader env st.block.toCBlockHeader = false)
    (hstake : st.block.isProofOfStake = true) (rand : ℕ → ℕ) (entry : Option IndexEntry) :
    (acceptBlock env rules stake (call.again rand) ⟨man, st.block⟩).result ≠ .ok entry := by
  have hrepeats := repeats_of_passes hproper h hman rand
  obtain ⟨hstaked, hindex, -⟩ := staked_of_passes hproper h
  have hblock : (blockAfterTests env rules call st pindex).isProofOfStake = true :=
    isProofOfStake_blockAfterTests.trans hstake
  have hflag : pindex.isProofOfStake = true :=
    (BlockMap.Proper.maintained.acceptBlockHeader hproper).flagged _ pindex hindex
      (by simpa [isGenesisHeader] using hother)
  obtain ⟨failure, hfailure⟩ := @stakeCheck_again_of_stake
    ((call.again rand).kernel env stake man)
    ((afterHeader env rules call st).index.ancestors pindex) man.setStakeSeen checked _ hblock
    (hstaked.isProofOfStake hflag) (hstaked.prevoutStake hblock)
  rw [← hrepeats.ancestors] at hfailure
  obtain ⟨reported, hreported⟩ := @acceptBlockStake_of_error env stake (call.again rand)
    ⟨man, blockAfterTests env rules call st pindex⟩ _ failure hfailure
  rw [acceptBlock_of_tests hrepeats.tests rfl, hrepeats.header, hrepeats.block, hreported]
  exact fun h => nomatch h

/-- A block without a proof of stake is stored in a later attempt. -/
theorem stores_of_work (hwork : st.block.isProofOfStake = false) (rand : ℕ → ℕ) :
    Stores man (acceptBlock env rules stake (call.again rand) ⟨man, st.block⟩) := by
  have hrepeats := repeats_of_passes hproper h hman rand
  obtain ⟨hstaked, -⟩ := staked_of_passes hproper h
  have hproper' : (afterHeader env rules call st).index.Proper env.params.hashGenesisBlock :=
    BlockMap.Proper.maintained.acceptBlockHeader hproper
  have hblock : (blockAfterTests env rules call st pindex).isProofOfStake = false :=
    isProofOfStake_blockAfterTests.trans hwork
  have hinsert : man.index = (afterHeader env rules call st).index.insert
      { pindex with toCBlockIndex := checked } := by
    rw [← hman]
    rfl
  -- the ancestors are looked up as before
  have hnext : computeNextStakeModifier env stake rand (man.index.stakeView man.tip).lookup checked
      ((afterHeader env rules call st).index.ancestors pindex) =
      computeNextStakeModifier env stake call.rand
        ((afterHeader env rules call st).index.stakeView (afterHeader env rules call st).tip).lookup
        pindex.toCBlockIndex ((afterHeader env rules call st).index.ancestors pindex) := by
    refine computeNextStakeModifier_alike env stake rfl (fun ancestor hmem => ?_) ?_ _ _
    · have hne := BlockMap.hashBlock_ne_of_mem_ancestors hproper'.keyed hproper'.linked
        hrepeats.rewrites.known hmem
      show Option.map _ (Option.map _ (man.index ancestor.hashBlock)) = _
      rw [hinsert, hrepeats.rewrites.insert_of_ne hne]
      rfl
    · exact congrArg UInt32.toNat hstaked.nTime
  have hpasses : Passes env rules stake (call.again rand) ⟨man, st.block⟩
      { pindex with toCBlockIndex := checked } checked man.setStakeSeen := by
    refine ⟨hrepeats.tests, ?_, ?_⟩
    · unfold readsOutOfBounds
      rw [hrepeats.block, hblock, Bool.false_and]
    · rw [hrepeats.header, hrepeats.block, hrepeats.ancestors]
      exact stakeCheck_again_of_work hblock hnext h.stake
  refine stores_of_passes rfl hpasses hrepeats.header ?_ rfl
  show man.index checked.hashBlock = _
  rw [hinsert, hstaked.hashBlock]
  exact hrepeats.rewrites.insert_self

end

/-- A block whose save failed is stored in a later attempt, in the same process or after a
restart, exactly if it is not a proof of stake. -/
theorem retry_stores_iff (hproper : st.man.index.Proper env.params.hashGenesisBlock)
    (hgenesis : isGenesisHeader env st.block.toCBlockHeader = true →
      st.block.isProofOfStake = false)
    (hfails : FailsToSave env rules stake call st) (restart : Bool) (rand : ℕ → ℕ) :
    Stores (retried env rules stake call st restart).man
        (acceptBlock env rules stake (call.again rand)
          (retried env rules stake call st restart)) ↔
      st.block.isProofOfStake = false := by
  obtain ⟨⟨failure, hsave⟩, stored, hstored⟩ := hfails
  obtain ⟨pindex, checked, seen, hpasses'⟩ := passes_of_ok hstored
  have hpasses : Passes env rules stake call st pindex checked seen :=
    ⟨hpasses'.tests, hpasses'.bounds, hpasses'.stake⟩
  have hretried : ∃ setStakeSeen m_failed_blocks,
      leftBehind (afterHeader env rules call st) pindex checked setStakeSeen m_failed_blocks =
        (retried env rules stake call st restart).man := by
    unfold retried
    rw [man_of_error hsave hpasses]
    cases restart with
    | false => exact ⟨_, _, rfl⟩
    | true => exact ⟨[], [], rfl⟩
  obtain ⟨setStakeSeen, m_failed_blocks, hman⟩ := hretried
  constructor
  · rintro ⟨entry, hok, -⟩
    by_contra hnot
    have hstake : st.block.isProofOfStake = true := Bool.eq_true_of_not_eq_false hnot
    have hother : isGenesisHeader env st.block.toCBlockHeader = false :=
      Bool.eq_false_iff.mpr fun h => hnot (hgenesis h)
    exact not_stores_of_stake hproper hpasses hman hother hstake rand _ hok
  · intro hwork
    exact stores_of_work hproper hpasses hman hwork rand

end Attempts

theorem exists_stored {result : Except KernelFail (Option IndexEntry)}
    (h : result.toOption.join.isSome = true) : ∃ entry, result = .ok (some entry) := by
  match result with
  | .error _ => simp [Except.toOption] at h
  | .ok none => simp [Except.toOption] at h
  | .ok (some entry) => exact ⟨entry, rfl⟩

namespace SmallNet

/-- The disk is full. -/
def fullDisk : AcceptCall :=
  { acceptCall with
    saveBlockToDisk :=
      .error (.error "AcceptBlock: Failed to find position to write new block to disk") }

/-- A block with the header and the transaction of the genesis block, for a hash function
with one value. -/
def savedGenesis : CBlock := { genesisBlock with hashMerkleRoot := checkpointHash }

def emptyMan : ChainMan where
  index _ := none
  m_failed_blocks := []
  setStakeSeen := []
  tip := 0
  blockFiles := []

/-- The genesis block is stored in the second attempt. -/
theorem savedGenesis_retried :
    Stores (retried checkpointNode headerRules stakeRules fullDisk ⟨emptyMan, savedGenesis⟩
        true).man
      (acceptBlock checkpointNode headerRules stakeRules (fullDisk.again fun _ => 0)
        (retried checkpointNode headerRules stakeRules fullDisk ⟨emptyMan, savedGenesis⟩
          true)) := by
  have hwork : savedGenesis.isProofOfStake = false := rfl
  have hfails : FailsToSave checkpointNode headerRules stakeRules fullDisk
      ⟨emptyMan, savedGenesis⟩ :=
    ⟨⟨_, rfl⟩, exists_stored (by decide +kernel)⟩
  have hproper : emptyMan.index.Proper checkpointNode.params.hashGenesisBlock :=
    @proper_of_run checkpointNode headerRules stakeRules emptyMan rfl []
  exact (retry_stores_iff hproper (fun _ => hwork) hfails true fun _ => 0).mpr hwork

/-- A block that stakes a genesis coin passes all checks but cannot be saved.  When it is
sent again it is marked as failed, in the same process and after a restart. -/
theorem retried_stake_fails :
    FailsToSave (SmallNet.node false false) headerRules stakeRules fullDisk
        ⟨genesisMan, mintedBlock 1700001000 (genesisPrevout 0)⟩ ∧
      ∀ restart : Bool,
        (acceptBlock (SmallNet.node false false) headerRules stakeRules (fullDisk.again fun _ => 0)
          (retried (SmallNet.node false false) headerRules stakeRules fullDisk
            ⟨genesisMan, mintedBlock 1700001000 (genesisPrevout 0)⟩ restart)).result =
          .error (.refused (.invalid .BLOCK_CONSENSUS "bad-pos")) ∧
        ((acceptBlock (SmallNet.node false false) headerRules stakeRules
          (fullDisk.again fun _ => 0)
          (retried (SmallNet.node false false) headerRules stakeRules fullDisk
            ⟨genesisMan, mintedBlock 1700001000 (genesisPrevout 0)⟩ restart)).state.man.index
          ((mintedBlock 1700001000 (genesisPrevout 0)).getHash hash256)).map
            (fun entry => entry.nStatus.failedValid) = some true := by
  refine ⟨⟨⟨_, rfl⟩, exists_stored (by decide +kernel)⟩, fun restart => ⟨?_, ?_⟩⟩
  · rw [← map_eq_error_iff (fun _ => ())]
    revert restart
    decide +kernel
  · revert restart
    decide +kernel

end SmallNet

end Patchcoin
