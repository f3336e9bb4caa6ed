import Patchcoin.Chain.Index
import Mathlib.Data.List.Sort
import Mathlib.Data.List.Perm.Basic

/-!
# The stake modifier

A proof of stake is hashed together with a modifier that nobody can know when
the staked coin is created.  Once per interval a block generates a new modifier:
from its ancestors of a selection interval it picks up to 64 blocks, one per
round, and every picked block contributes its entropy bit.  Which block a round
picks depends on a hash of the proof of the block and of the previous modifier.

The candidates are shuffled with random numbers before they are sorted.  The
comparison is total on times and hashes, so the order after sorting does not
depend on the shuffle (`sortCandidates_shuffle`).
-/

namespace Patchcoin

open PrefixCode

/-- What only the stake protocol reads: parameters of the network, and the script
interpreter as a coinstake is checked with it. -/
structure StakeRules where
  nModifierInterval : ℕ
  nStakeMaxAge : ℤ
  /-- `VerifyScript` for the first input of a coinstake and the output it spends, with
  `SCRIPT_VERIFY_P2SH`. -/
  verifyScript : CTransaction → CTxOut → Bool

def MODIFIER_INTERVAL_RATIO : ℕ := 3

/-- `IsProtocolV04`. -/
def isProtocolV04 (params : Params) (nTimeBlock : ℕ) : Bool :=
  decide (params.switchTime 1399300000 1395700000 ≤ nTimeBlock)

/-- `IsProtocolV05`. -/
def isProtocolV05 (params : Params) (nTimeTx : ℕ) : Bool :=
  decide (params.switchTime 1461700000 1447700000 ≤ nTimeTx)

namespace CBlockIndex

def getBlockTime (pindex : CBlockIndex) : ℕ := pindex.nTime.toNat

def getStakeEntropyBit (pindex : CBlockIndex) : ℕ :=
  ((pindex.nFlags &&& BLOCK_STAKE_ENTROPY) >>> 1).toNat

def generatedStakeModifier (pindex : CBlockIndex) : Bool :=
  pindex.nFlags &&& BLOCK_STAKE_MODIFIER != 0

end CBlockIndex

/-! ## Random order and sorted order -/

section Shuffle

variable {α : Type*}

/-- `std::swap(values[i], values[j])`. -/
def swapAt (values : List α) (i j : ℕ) : List α :=
  if h : i < values.length ∧ j < values.length then (values.set i values[j]).set j values[i]
  else values

/-- The loop that shuffles, from index `i` down to two; `rand` stands for the numbers
that `GetRand` returns. -/
def shuffleFrom (rand : ℕ → ℕ) : ℕ → List α → List α
  | 0, values => values
  | i + 1, values =>
    if i = 0 then values
    else shuffleFrom rand i (swapAt values (i + 1) (rand (i + 1) % (i + 1)))

def shuffle (rand : ℕ → ℕ) (values : List α) : List α := shuffleFrom rand (values.length - 1) values

theorem swapAt_perm (values : List α) (i j : ℕ) : (swapAt values i j).Perm values := by
  unfold swapAt
  split
  · next h => exact List.set_set_perm h.1 h.2
  · exact List.Perm.refl _

theorem shuffleFrom_perm (rand : ℕ → ℕ) (i : ℕ) :
    ∀ values : List α, (shuffleFrom rand i values).Perm values := by
  induction i with
  | zero => intro values; exact List.Perm.refl _
  | succ i ih =>
    intro values
    rw [shuffleFrom]
    split
    · exact List.Perm.refl _
    · exact (ih _).trans (swapAt_perm _ _ _)

theorem shuffle_perm (rand : ℕ → ℕ) (values : List α) : (shuffle rand values).Perm values :=
  shuffleFrom_perm rand _ values

end Shuffle

/-- The order of the candidates: by time, then by block hash. -/
def candidateLE (a b : ℕ × Uint256) : Prop := a.1 < b.1 ∨ a.1 = b.1 ∧ a.2.toNat ≤ b.2.toNat

instance : DecidableRel candidateLE := fun a b =>
  inferInstanceAs (Decidable (a.1 < b.1 ∨ a.1 = b.1 ∧ a.2.toNat ≤ b.2.toNat))

instance : Std.Total candidateLE where
  total a b := by
    unfold candidateLE
    omega

instance : IsTrans (ℕ × Uint256) candidateLE where
  trans a b c := by
    unfold candidateLE
    omega

theorem candidateLE_antisymm {a b : ℕ × Uint256} (hab : candidateLE a b) (hba : candidateLE b a) :
    a = b := by
  unfold candidateLE at hab hba
  have htime : a.1 = b.1 := by omega
  have hhash : a.2.toNat = b.2.toNat := by omega
  exact Prod.ext htime (BitVec.eq_of_toNat_eq hhash)

def sortCandidates (candidates : List (ℕ × Uint256)) : List (ℕ × Uint256) :=
  candidates.insertionSort candidateLE

/-- The sorted order is one and the same for every shuffle. -/
theorem sortCandidates_shuffle (rand : ℕ → ℕ) (candidates : List (ℕ × Uint256)) :
    sortCandidates (shuffle rand candidates) = sortCandidates candidates := by
  have hperm : (sortCandidates (shuffle rand candidates)).Perm (sortCandidates candidates) :=
    (List.perm_insertionSort ..).trans
      ((shuffle_perm rand candidates).trans (List.perm_insertionSort ..).symm)
  exact hperm.eq_of_pairwise (fun a b _ _ hab hba => candidateLE_antisymm hab hba)
    (List.pairwise_insertionSort ..) (List.pairwise_insertionSort ..)

/-! ## Selection intervals -/

section

variable (env : Env) (stake : StakeRules)

/-- `GetStakeModifierSelectionIntervalSection`. -/
def getStakeModifierSelectionIntervalSection (nSection : ℕ) : ℕ :=
  stake.nModifierInterval * 63 / (63 + (63 - nSection) * ( MODIFIER_INTERVAL_RATIO - 1))

/-- `GetStakeModifierSelectionInterval`. -/
def getStakeModifierSelectionInterval : ℕ :=
  ((List.range 64).map (getStakeModifierSelectionIntervalSection stake)).sum

/-- The start of the selection interval of the block after the given one. -/
def selectionIntervalStart (pindexPrev : CBlockIndex) : ℤ :=
  (pindexPrev.getBlockTime / stake.nModifierInterval * stake.nModifierInterval : ℕ) -
    getStakeModifierSelectionInterval stake

/-! ## Selecting blocks -/

/-- `GetLastStakeModifier`: the modifier and the time of the block that generated it. -/
def getLastStakeModifier : IndexChain → Option (UInt64 × ℕ)
  | [] => none
  | pindex :: rest =>
    if pindex.generatedStakeModifier then some (pindex.nStakeModifier, pindex.getBlockTime)
    else getLastStakeModifier rest

/-- The hash by which a candidate competes.  Dividing it favours proof of stake. -/
def selectionHash (nStakeModifierPrev : UInt64) (pindex : CBlockIndex) : ℕ :=
  let hashProof := if pindex.isProofOfStake then pindex.hashProofOfStake else pindex.hashBlock
  let hashSelection :=
    (env.host.hash256 (hashProof.toBytes ++ leBytes 8 nStakeModifierPrev.toNat)).toNat
  if pindex.isProofOfStake then hashSelection / 2 ^ 32 else hashSelection

/-- The better of the best candidate so far and the next one. -/
def betterCandidate (nStakeModifierPrev : UInt64) (best : Option CBlockIndex)
    (pindex : CBlockIndex) : CBlockIndex :=
  match best with
  | none => pindex
  | some pindexBest =>
    if selectionHash env nStakeModifierPrev pindex <
        selectionHash env nStakeModifierPrev pindexBest then pindex
    else pindexBest

/-- The loop of `SelectBlockFromCandidates`, with the best candidate so far.  A hash
that is not in the block index is an error. -/
def selectLoop (lookup : Uint256 → Option CBlockIndex) (selected : List Uint256)
    (nSelectionIntervalStop : ℤ) (nStakeModifierPrev : UInt64) :
    List (ℕ × Uint256) → Option CBlockIndex → Option (Option CBlockIndex)
  | [], best => some best
  | item :: rest, best =>
    match lookup item.2 with
    | none => none
    | some pindex =>
      if best.isSome ∧ nSelectionIntervalStop < pindex.getBlockTime then some best
      else if selected.contains pindex.hashBlock then
        selectLoop lookup selected nSelectionIntervalStop nStakeModifierPrev rest best
      else selectLoop lookup selected nSelectionIntervalStop nStakeModifierPrev rest
        (some (betterCandidate env nStakeModifierPrev best pindex))

/-- `SelectBlockFromCandidates`. -/
def selectBlockFromCandidates (lookup : Uint256 → Option CBlockIndex)
    (vSortedByTimestamp : List (ℕ × Uint256)) (selected : List Uint256)
    (nSelectionIntervalStop : ℤ) (nStakeModifierPrev : UInt64) : Option CBlockIndex :=
  (selectLoop env lookup selected nSelectionIntervalStop nStakeModifierPrev vSortedByTimestamp
    none).join

/-- The progress of the selection rounds. -/
structure Selection where
  nSelectionIntervalStop : ℤ
  mapSelectedBlocks : List Uint256 := []
  nStakeModifierNew : UInt64 := 0

/-- One round: the section of the round is added and one more block selected. -/
def selectRound (lookup : Uint256 → Option CBlockIndex) (vSortedByTimestamp : List (ℕ × Uint256))
    (nStakeModifierPrev : UInt64) (selection : Selection) (nRound : ℕ) : Option Selection :=
  let stop := selection.nSelectionIntervalStop +
    getStakeModifierSelectionIntervalSection stake nRound
  (selectBlockFromCandidates env lookup vSortedByTimestamp selection.mapSelectedBlocks stop
    nStakeModifierPrev).map fun pindex =>
      { nSelectionIntervalStop := stop
        mapSelectedBlocks := pindex.hashBlock :: selection.mapSelectedBlocks
        nStakeModifierNew := selection.nStakeModifierNew |||
          UInt64.ofNat pindex.getStakeEntropyBit <<< UInt64.ofNat nRound }

/-- The ancestors whose times lie in the selection interval. -/
def stakeCandidates (nSelectionIntervalStart : ℤ) (ancestors : IndexChain) : List (ℕ × Uint256) :=
  (ancestors.takeWhile fun pindex => decide (nSelectionIntervalStart ≤ pindex.getBlockTime)).map
    fun pindex => (pindex.getBlockTime, pindex.hashBlock)

/-- The new modifier after a block, from the candidates among it and its ancestors. -/
def generateStakeModifier (rand : ℕ → ℕ) (lookup : Uint256 → Option CBlockIndex)
    (nStakeModifierPrev : UInt64) (pindexPrev : CBlockIndex) (rest : IndexChain) : Option UInt64 :=
  let start := selectionIntervalStart stake pindexPrev
  let vSortedByTimestamp :=
    sortCandidates (shuffle rand (stakeCandidates start (pindexPrev :: rest)))
  ((List.range (min 64 vSortedByTimestamp.length)).foldlM
    (selectRound env stake lookup vSortedByTimestamp nStakeModifierPrev)
    { nSelectionIntervalStop := start }).map Selection.nStakeModifierNew

/-- `ComputeNextStakeModifier`: the modifier and whether it was generated here. -/
def computeNextStakeModifier (rand : ℕ → ℕ) (lookup : Uint256 → Option CBlockIndex)
    (pindexCurrent : CBlockIndex) : IndexChain → Option (UInt64 × Bool)
  | [] => some (0, true)
  | pindexPrev :: rest =>
    match getLastStakeModifier (pindexPrev :: rest) with
    | none => none
    | some (nStakeModifier, nModifierTime) =>
      let epoch := nModifierTime / stake.nModifierInterval
      if pindexPrev.getBlockTime / stake.nModifierInterval ≤ epoch then
        some (nStakeModifier, false)
      -- since version 0.4 the current block has to be in a later interval, too
      else if pindexCurrent.getBlockTime / stake.nModifierInterval ≤ epoch ∧
          isProtocolV04 env.params pindexCurrent.getBlockTime then
        some (nStakeModifier, false)
      else (generateStakeModifier env stake rand lookup nStakeModifier pindexPrev rest).map
        fun nStakeModifierNew => (nStakeModifierNew, true)

/-! ## Entropy bit, checksum and checkpoints -/

/-- `GetStakeEntropyBit`. -/
def getStakeEntropyBit (block : CBlock) : ℕ :=
  if isProtocolV04 env.params block.nTime.toNat then (block.getHash env.host.hash256).toNat % 2
  else (env.host.hash160 block.vchBlockSig).toNat / 2 ^ 159

/-- What `GetStakeModifierChecksum` hashes. -/
def checksumString (pindex : CBlockIndex) (ancestors : IndexChain) : List UInt8 :=
  (ancestors.head?.map fun pprev => serUInt32 pprev.nStakeModifierChecksum).getD [] ++
    (serUInt32 pindex.nFlags ++
      (pindex.hashProofOfStake.toBytes ++ leBytes 8 pindex.nStakeModifier.toNat))

/-- `GetStakeModifierChecksum`. -/
def getStakeModifierChecksum (pindex : CBlockIndex) (ancestors : IndexChain) : UInt32 :=
  UInt32.ofNat ((env.host.hash256 (checksumString pindex ancestors)).toNat / 2 ^ 224)

/-- `mapStakeModifierCheckpoints` and `mapStakeModifierTestnetCheckpoints`. -/
def stakeModifierCheckpoints (params : Params) : List (ℕ × UInt32) :=
  if params.network = .test then [(0, 0xfd11f4e7)] else [(0, 0xfd11f4e7), (10000, 0x67f305d7)]

/-- `CheckStakeModifierCheckpoints`. -/
def checkStakeModifierCheckpoints (nHeight : ℕ) (nStakeModifierChecksum : UInt32) : Bool :=
  match (stakeModifierCheckpoints env.params).lookup nHeight with
  | some checksum => nStakeModifierChecksum == checksum
  | none => true

theorem getStakeEntropyBit_le_one (block : CBlock) : getStakeEntropyBit env block ≤ 1 := by
  unfold getStakeEntropyBit
  split
  · omega
  · have hbound := (env.host.hash160 block.vchBlockSig).isLt
    omega

/-- The result does not depend on the random numbers. -/
theorem computeNextStakeModifier_rand (rand rand' : ℕ → ℕ) (lookup : Uint256 → Option CBlockIndex)
    (pindexCurrent : CBlockIndex) (ancestors : IndexChain) :
    computeNextStakeModifier env stake rand lookup pindexCurrent ancestors =
      computeNextStakeModifier env stake rand' lookup pindexCurrent ancestors := by
  cases ancestors with
  | nil => rfl
  | cons pindexPrev rest =>
    have hgenerate : ∀ nStakeModifier,
        generateStakeModifier env stake rand lookup nStakeModifier pindexPrev rest =
          generateStakeModifier env stake rand' lookup nStakeModifier pindexPrev rest := by
      intro nStakeModifier
      simp only [generateStakeModifier, sortCandidates_shuffle]
    simp only [computeNextStakeModifier, hgenerate]

end

end Patchcoin
