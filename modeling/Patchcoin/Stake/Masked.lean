import Patchcoin.Stake.Check

/-!
# What the stake functions read of an entry's flags

Of the 32 flags of an index entry the code gives a meaning to three.  The
functions of the stake protocol read no other bits of the entries they visit:
their results stay the same if all other bits are cleared.

The lookup of the block of a staked coin is a special case.  It may lead to any
entry of the index, also to one whose stake was refused, but of that first entry
no flag is read at all.  Views are therefore masked twice: entries found through
the index lose all flags, entries of the active chain all but the three.
-/

namespace Patchcoin

open List StakeView

/-- The entry with only the flags of a mask. -/
def CBlockIndex.masked (mask : UInt32) (pindex : CBlockIndex) : CBlockIndex :=
  { pindex with nFlags := pindex.nFlags &&& mask }

/-- The flags that have a meaning: proof of stake, entropy and modifier. -/
def STAKE_FLAGS : UInt32 := 7

namespace CBlockIndex

variable (mask : UInt32) (pindex : CBlockIndex)

@[simp] theorem hashBlock_masked : (pindex.masked mask).hashBlock = pindex.hashBlock := rfl

@[simp] theorem nHeight_masked : (pindex.masked mask).nHeight = pindex.nHeight := rfl

@[simp] theorem nMint_masked : (pindex.masked mask).nMint = pindex.nMint := rfl

@[simp] theorem nStakeModifier_masked :
    (pindex.masked mask).nStakeModifier = pindex.nStakeModifier := rfl

@[simp] theorem hashProofOfStake_masked :
    (pindex.masked mask).hashProofOfStake = pindex.hashProofOfStake := rfl

@[simp] theorem getBlockTime_masked : (pindex.masked mask).getBlockTime = pindex.getBlockTime := rfl

@[simp] theorem isProofOfStake_masked :
    (pindex.masked STAKE_FLAGS).isProofOfStake = pindex.isProofOfStake := by
  show ((pindex.nFlags &&& STAKE_FLAGS) &&& BLOCK_PROOF_OF_STAKE != 0) = _
  rw [UInt32.and_assoc]
  rfl

@[simp] theorem getStakeEntropyBit_masked :
    (pindex.masked STAKE_FLAGS).getStakeEntropyBit = pindex.getStakeEntropyBit := by
  show (((pindex.nFlags &&& STAKE_FLAGS) &&& BLOCK_STAKE_ENTROPY) >>> 1).toNat = _
  rw [UInt32.and_assoc]
  rfl

@[simp] theorem generatedStakeModifier_masked :
    (pindex.masked STAKE_FLAGS).generatedStakeModifier = pindex.generatedStakeModifier := by
  show ((pindex.nFlags &&& STAKE_FLAGS) &&& BLOCK_STAKE_MODIFIER != 0) = _
  rw [UInt32.and_assoc]
  rfl

end CBlockIndex

section

variable (env : Env) (stake : StakeRules)
variable {items : List (ℕ × Uint256)} {lookup lookup' : Uint256 → Option CBlockIndex}

/-! ## The modifier of the next block -/

/-- A chain with only the meaningful flags. -/
def maskedChain (chain : IndexChain) : IndexChain := chain.map (CBlockIndex.masked STAKE_FLAGS)

@[simp] theorem maskedChain_nil : maskedChain [] = [] := rfl

@[simp] theorem maskedChain_cons (pindex : CBlockIndex) (rest : IndexChain) :
    maskedChain (pindex :: rest) = pindex.masked STAKE_FLAGS :: maskedChain rest := rfl

theorem getLastStakeModifier_maskedChain (chain : IndexChain) :
    getLastStakeModifier (maskedChain chain) = getLastStakeModifier chain := by
  induction chain with
  | nil => rfl
  | cons pindex rest ih => simp [getLastStakeModifier, ih]

theorem stakeCandidates_maskedChain (start : ℤ) (chain : IndexChain) :
    stakeCandidates start (maskedChain chain) = stakeCandidates start chain := by
  induction chain with
  | nil => rfl
  | cons pindex rest ih =>
    unfold stakeCandidates at ih ⊢
    by_cases htime : start ≤ pindex.getBlockTime
    · simpa [htime] using ih
    · simp [htime]

@[simp] theorem selectionHash_masked (nStakeModifierPrev : UInt64) (pindex : CBlockIndex) :
    selectionHash env nStakeModifierPrev (pindex.masked STAKE_FLAGS) =
      selectionHash env nStakeModifierPrev pindex := by
  simp [selectionHash]

theorem betterCandidate_masked (nStakeModifierPrev : UInt64) (best : Option CBlockIndex)
    (pindex : CBlockIndex) :
    (betterCandidate env nStakeModifierPrev best pindex).masked STAKE_FLAGS =
      betterCandidate env nStakeModifierPrev (best.map (CBlockIndex.masked STAKE_FLAGS))
        (pindex.masked STAKE_FLAGS) := by
  cases best with
  | none => rfl
  | some pindexBest =>
    simp only [betterCandidate, Option.map_some, selectionHash_masked]
    split <;> rfl

/-- Two lookups find the same entries, as far as the meaningful flags. -/
def LookupsAlike (lookup lookup' : Uint256 → Option CBlockIndex) (hash : Uint256) : Prop :=
  (lookup hash).map (CBlockIndex.masked STAKE_FLAGS) =
    (lookup' hash).map (CBlockIndex.masked STAKE_FLAGS)

/-- Equal fields of entries that agree up to a mask. -/
theorem CBlockIndex.fields_of_masked_eq {mask : UInt32} {pindex pindex' : CBlockIndex}
    (h : pindex.masked mask = pindex'.masked mask) :
    pindex.hashBlock = pindex'.hashBlock ∧ pindex.nHeight = pindex'.nHeight ∧
      pindex.getBlockTime = pindex'.getBlockTime ∧ pindex.nStatus = pindex'.nStatus ∧
      pindex.nHeightStake = pindex'.nHeightStake := by
  have hhash := congrArg CBlockIndex.hashBlock h
  have hheight := congrArg CBlockIndex.nHeight h
  have htime := congrArg CBlockIndex.getBlockTime h
  have hstatus := congrArg CBlockIndex.nStatus h
  have hstake := congrArg CBlockIndex.nHeightStake h
  exact ⟨hhash, hheight, htime, hstatus, hstake⟩

theorem selectLoop_alike (selected : List Uint256) (stop : ℤ) (nStakeModifierPrev : UInt64)
    (halike : ∀ item ∈ items, LookupsAlike lookup lookup' item.2) :
    ∀ best best' : Option CBlockIndex,
      best.map (CBlockIndex.masked STAKE_FLAGS) = best'.map (CBlockIndex.masked STAKE_FLAGS) →
      (selectLoop env lookup selected stop nStakeModifierPrev items best).map
          (Option.map (CBlockIndex.masked STAKE_FLAGS)) =
        (selectLoop env lookup' selected stop nStakeModifierPrev items best').map
          (Option.map (CBlockIndex.masked STAKE_FLAGS)) := by
  induction items with
  | nil =>
    intro best best' hbest
    simp only [selectLoop, Option.map_some, hbest]
  | cons item rest ih =>
    intro best best' hbest
    have hrest := ih fun next hnext => halike next (.tail _ hnext)
    have hitem : LookupsAlike lookup lookup' item.2 := halike item (.head _)
    have hsome : best.isSome = best'.isSome := by
      have := congrArg Option.isSome hbest
      simpa using this
    unfold LookupsAlike at hitem
    rw [selectLoop, selectLoop]
    cases hfound : lookup item.2 with
    | none =>
      cases hfound' : lookup' item.2 with
      | none => rfl
      | some pindex' => simp [hfound, hfound'] at hitem
    | some pindex =>
      cases hfound' : lookup' item.2 with
      | none => simp [hfound, hfound'] at hitem
      | some pindex' =>
        rw [hfound, hfound', Option.map_some, Option.map_some, Option.some.injEq] at hitem
        obtain ⟨hhash, -, htime, -⟩ := CBlockIndex.fields_of_masked_eq hitem
        simp only [hsome, hhash, htime]
        split_ifs
        · simp only [Option.map_some, hbest]
        · exact hrest _ _ hbest
        · apply hrest
          simp only [Option.map_some, betterCandidate_masked, hbest, hitem]

theorem selectRound_alike (halike : ∀ item ∈ items, LookupsAlike lookup lookup' item.2)
    (nStakeModifierPrev : UInt64) (selection : Selection) (nRound : ℕ) :
    selectRound env stake lookup items nStakeModifierPrev selection nRound =
      selectRound env stake lookup' items nStakeModifierPrev selection nRound := by
  have hloop := selectLoop_alike env selection.mapSelectedBlocks
    (selection.nSelectionIntervalStop + getStakeModifierSelectionIntervalSection stake nRound)
    nStakeModifierPrev halike none none rfl
  simp only [selectRound, selectBlockFromCandidates]
  generalize selectLoop env lookup _ _ _ _ _ = first at hloop ⊢
  generalize selectLoop env lookup' _ _ _ _ _ = second at hloop ⊢
  match first, second with
  | none, none => rfl
  | none, some _ => simp at hloop
  | some _, none => simp at hloop
  | some none, some none => rfl
  | some none, some (some _) => simp at hloop
  | some (some _), some none => simp at hloop
  | some (some pindex), some (some pindex') =>
    simp only [Option.map_some, Option.some.injEq] at hloop
    have hbit : pindex.getStakeEntropyBit = pindex'.getStakeEntropyBit := by
      rw [← CBlockIndex.getStakeEntropyBit_masked pindex, hloop,
        CBlockIndex.getStakeEntropyBit_masked]
    simp only [Option.join_some, Option.map_some, (CBlockIndex.fields_of_masked_eq hloop).1, hbit]

theorem generateStakeModifier_alike {pindexPrev pindexPrev' : CBlockIndex} {rest rest' : IndexChain}
    (hchain : maskedChain (pindexPrev :: rest) = maskedChain (pindexPrev' :: rest'))
    (halike : ∀ pindex ∈ pindexPrev :: rest, LookupsAlike lookup lookup' pindex.hashBlock)
    (nStakeModifier : UInt64) (rand : ℕ → ℕ) :
    generateStakeModifier env stake rand lookup nStakeModifier pindexPrev rest =
      generateStakeModifier env stake rand lookup' nStakeModifier pindexPrev' rest' := by
  have hstart : selectionIntervalStart stake pindexPrev =
      selectionIntervalStart stake pindexPrev' := by
    simp only [maskedChain_cons, cons.injEq] at hchain
    simp only [selectionIntervalStart, (CBlockIndex.fields_of_masked_eq hchain.1).2.2.1]
  have hcandidates : stakeCandidates (selectionIntervalStart stake pindexPrev)
        (pindexPrev :: rest) =
      stakeCandidates (selectionIntervalStart stake pindexPrev') (pindexPrev' :: rest') := by
    rw [← stakeCandidates_maskedChain, hchain, stakeCandidates_maskedChain, hstart]
  -- the items of every round are ancestors, of which both lookups find the same
  have hitems : ∀ item ∈ sortCandidates (shuffle rand (stakeCandidates
      (selectionIntervalStart stake pindexPrev) (pindexPrev :: rest))),
      LookupsAlike lookup lookup' item.2 := by
    intro item hitem
    have hmem : item ∈ stakeCandidates (selectionIntervalStart stake pindexPrev)
        (pindexPrev :: rest) := by
      rw [sortCandidates_shuffle] at hitem
      exact (mem_insertionSort candidateLE).mp hitem
    obtain ⟨pindex, hpindex, rfl⟩ := mem_map.mp hmem
    exact halike pindex (takeWhile_subset _ hpindex)
  have hround : selectRound env stake lookup (sortCandidates (shuffle rand (stakeCandidates
        (selectionIntervalStart stake pindexPrev) (pindexPrev :: rest)))) nStakeModifier =
      selectRound env stake lookup' (sortCandidates (shuffle rand (stakeCandidates
        (selectionIntervalStart stake pindexPrev) (pindexPrev :: rest)))) nStakeModifier := by
    funext selection nRound
    exact selectRound_alike env stake hitems nStakeModifier selection nRound
  simp only [generateStakeModifier]
  rw [hround, hcandidates, hstart]

/-- The next modifier depends only on the meaningful flags of the ancestors, and not on
the random numbers. -/
theorem computeNextStakeModifier_alike {ancestors ancestors' : IndexChain}
    (hchain : maskedChain ancestors = maskedChain ancestors')
    (halike : ∀ pindex ∈ ancestors, LookupsAlike lookup lookup' pindex.hashBlock)
    {pindexCurrent pindexCurrent' : CBlockIndex}
    (htime : pindexCurrent.getBlockTime = pindexCurrent'.getBlockTime) (rand rand' : ℕ → ℕ) :
    computeNextStakeModifier env stake rand lookup pindexCurrent ancestors =
      computeNextStakeModifier env stake rand' lookup' pindexCurrent' ancestors' := by
  rw [computeNextStakeModifier_rand env stake rand rand']
  have hlast : getLastStakeModifier ancestors = getLastStakeModifier ancestors' := by
    rw [← getLastStakeModifier_maskedChain, hchain, getLastStakeModifier_maskedChain]
  cases ancestors with
  | nil =>
    cases ancestors' with
    | nil => rfl
    | cons pindexPrev' rest' => simp at hchain
  | cons pindexPrev rest =>
    cases ancestors' with
    | nil => simp at hchain
    | cons pindexPrev' rest' =>
      have hgenerate := generateStakeModifier_alike env stake hchain halike
      have hprev : pindexPrev.getBlockTime = pindexPrev'.getBlockTime := by
        simp only [maskedChain_cons, cons.injEq] at hchain
        exact (CBlockIndex.fields_of_masked_eq hchain.1).2.2.1
      rw [computeNextStakeModifier, computeNextStakeModifier, hlast]
      cases getLastStakeModifier (pindexPrev' :: rest') with
      | none => rfl
      | some last =>
        obtain ⟨nStakeModifier, nModifierTime⟩ := last
        dsimp only
        rw [hprev, htime, hgenerate nStakeModifier rand']

/-! ## The kernel -/

theorem kernelModifierLoop_maskedChain (nTimeTx : UInt32) (chain : IndexChain) :
    ∀ nStakeModifierTime : ℤ,
      kernelModifierLoop env stake nTimeTx (maskedChain chain) nStakeModifierTime =
        kernelModifierLoop env stake nTimeTx chain nStakeModifierTime := by
  induction chain with
  | nil => intro nStakeModifierTime; rfl
  | cons pindex rest ih =>
    intro nStakeModifierTime
    cases rest with
    | nil => rfl
    | cons pprev rest =>
      rw [maskedChain_cons, maskedChain_cons, kernelModifierLoop, kernelModifierLoop,
        ← maskedChain_cons, ih, CBlockIndex.generatedStakeModifier_masked]
      rfl

theorem getKernelStakeModifierV05_maskedChain (chain : IndexChain) (nTimeTx : UInt32) :
    getKernelStakeModifierV05 env stake (maskedChain chain) nTimeTx =
      getKernelStakeModifierV05 env stake chain nTimeTx := by
  cases chain with
  | nil => rfl
  | cons pindexPrev rest =>
    rw [maskedChain_cons, getKernelStakeModifierV05, getKernelStakeModifierV05,
      ← maskedChain_cons, kernelModifierLoop_maskedChain]
    rfl

/-- The view with only the flags that the kernel reads. -/
def StakeView.masked (view : StakeView) : StakeView where
  lookup hash := (view.lookup hash).map (CBlockIndex.masked 0)
  m_chain := maskedChain view.m_chain

section

variable (view : StakeView)
include view

theorem StakeView.contains_masked (mask : UInt32) (pindex : CBlockIndex) :
    view.masked.contains (pindex.masked mask) = view.contains pindex := by
  unfold contains masked maskedChain
  rw [← map_reverse, getElem?_map, Option.map_map]
  rfl

theorem StakeView.next_masked (mask : UInt32) (pindex : CBlockIndex) :
    view.masked.next (pindex.masked mask) =
      (view.next pindex).map (CBlockIndex.masked STAKE_FLAGS) := by
  unfold next
  rw [contains_masked]
  split
  · unfold masked maskedChain
    rw [← map_reverse, getElem?_map]
    rfl
  · rfl

theorem kernelNext_masked (tmpChain : List CBlockIndex) (mask : UInt32)
    (pindex : CBlockIndex) (n : ℕ) :
    kernelNext view.masked (maskedChain tmpChain) (pindex.masked mask) n =
      (kernelNext view tmpChain pindex n).map
        fun next => (next.1.masked STAKE_FLAGS, next.2) := by
  unfold kernelNext
  rw [next_masked]
  cases tmpChain with
  | nil => simp [Option.map_map, Function.comp_def]
  | cons first rest =>
    have hget : (maskedChain (first :: rest))[n]? =
        ((first :: rest)[n]?).map (CBlockIndex.masked STAKE_FLAGS) := getElem?_map ..
    rw [hget, maskedChain_cons, head?_cons, head?_cons]
    show (if first.nHeight ≤ pindex.nHeight + 1 then _ else _) = _
    by_cases hheight : first.nHeight ≤ pindex.nHeight + 1
    · simp only [if_pos hheight, Option.map_map, Function.comp_def]
    · simp only [if_neg hheight, Option.map_map, Function.comp_def]

theorem forwardLoop_masked (tmpChain : List CBlockIndex) (stop fuel : ℕ) :
    ∀ (mask : UInt32) (pindex : CBlockIndex) (n nStakeModifierTime : ℕ),
      forwardLoop view.masked (maskedChain tmpChain) stop fuel (pindex.masked mask) n
          nStakeModifierTime =
        forwardLoop view tmpChain stop fuel pindex n nStakeModifierTime := by
  induction fuel with
  | zero => intro mask pindex n nStakeModifierTime; rfl
  | succ fuel ih =>
    intro mask pindex n nStakeModifierTime
    rw [forwardLoop, forwardLoop, kernelNext_masked]
    split
    · rfl
    · cases hnext : kernelNext view tmpChain pindex n with
      | none => rfl
      | some next =>
        simp only [Option.map_some, ih, CBlockIndex.generatedStakeModifier_masked,
          CBlockIndex.getBlockTime_masked]

theorem getKernelStakeModifierV03_masked (chain : IndexChain) (hashBlockFrom : Uint256) :
    getKernelStakeModifierV03 stake view.masked (maskedChain chain) hashBlockFrom =
      getKernelStakeModifierV03 stake view chain hashBlockFrom := by
  have hhead : ((maskedChain chain).head?.map CBlockIndex.nHeight).getD 0 =
      (chain.head?.map CBlockIndex.nHeight).getD 0 := by
    cases chain with
    | nil => rfl
    | cons pindexPrev rest => rfl
  have htmp : ∀ count, (((maskedChain chain).take count).takeWhile
        fun pindex => !view.masked.contains pindex).reverse =
      maskedChain ((chain.take count).takeWhile fun pindex => !view.contains pindex).reverse := by
    intro count
    unfold maskedChain
    rw [← map_take, takeWhile_map, map_reverse]
    simp only [Function.comp_def, contains_masked]
  have hlength : view.masked.m_chain.length = view.m_chain.length := length_map ..
  unfold getKernelStakeModifierV03
  simp only [hhead, htmp, hlength]
  cases hfrom : view.lookup hashBlockFrom with
  | none => simp only [masked, hfrom, Option.map_none]
  | some pindexFrom =>
    have hlookup : view.masked.lookup hashBlockFrom = some (pindexFrom.masked 0) := by
      simp only [masked, hfrom, Option.map_some]
    have hcount : ∀ chain : List CBlockIndex, (maskedChain chain).length = chain.length :=
      fun chain => length_map ..
    simp only [hlookup, CBlockIndex.nHeight_masked, CBlockIndex.getBlockTime_masked,
      forwardLoop_masked, hcount]

/-- The proof of stake depends only on the flags that have a meaning. -/
theorem checkProofOfStake_masked (g_txindex : Option TxIndex)
    (chain : IndexChain) (tx : CTransaction) (nBits nTimeTx : UInt32) :
    checkProofOfStake env stake view.masked g_txindex (maskedChain chain) tx nBits nTimeTx =
      checkProofOfStake env stake view g_txindex chain tx nBits nTimeTx := by
  have hmodifier : ∀ hashBlockFrom,
      getKernelStakeModifier env stake view.masked (maskedChain chain) hashBlockFrom nTimeTx =
        getKernelStakeModifier env stake view chain hashBlockFrom nTimeTx := by
    intro hashBlockFrom
    rw [getKernelStakeModifier, getKernelStakeModifier, getKernelStakeModifierV05_maskedChain,
      getKernelStakeModifierV03_masked]
  have hkernel : ∀ header offset txPrev prevout,
      checkStakeKernelHash env stake view.masked nBits (maskedChain chain) header offset txPrev
          prevout nTimeTx =
        checkStakeKernelHash env stake view nBits chain header offset txPrev prevout nTimeTx := by
    intro header offset txPrev prevout
    cases chain with
    | nil => rfl
    | cons pindexPrev rest =>
      have hrest : maskedChain rest = [] ↔ rest = [] := map_eq_nil_iff
      simp only [maskedChain_cons] at hmodifier ⊢
      simp only [checkStakeKernelHash, kernelSalt, hmodifier, hrest, CBlockIndex.nMint_masked]
  simp only [checkProofOfStake, checkStakedTx, hkernel]

end

end

end Patchcoin
