import Patchcoin.Stake.Kernel

/-!
# Which modifier a kernel gets

`GetKernelStakeModifierV05` walks back from the previous block.  It takes over the height and
the time of those blocks only that generated a modifier, but returns the modifier of the block
at which it stops.  Block times need not be monotone, so one has to see that the two belong
together: the test on the time that was taken over last fails until another time is taken over,
and so the loop can stop at no other block than the one it has just taken the time from.
-/

namespace Patchcoin

/-- What `GetKernelStakeModifierV05` returns. -/
structure KernelModifier where
  nStakeModifier : UInt64
  nStakeModifierHeight : ℕ
  nStakeModifierTime : ℕ
  deriving DecidableEq

section

variable (env : Env) (stake : StakeRules) (nTimeTx : UInt32)

/-- A modifier of this time is early enough for the stake. -/
def earlyEnough (nStakeModifierTime : ℕ) : Prop :=
  (nStakeModifierTime : ℤ) + env.params.nStakeMinAge - getStakeModifierSelectionInterval stake ≤
    nTimeTx.toNat

instance (nStakeModifierTime : ℕ) : Decidable (earlyEnough env stake nTimeTx nStakeModifierTime) :=
  inferInstanceAs (Decidable (_ ≤ _))

/-- The loop of `GetKernelStakeModifierV05` with all that it keeps: the entry it is at, and the
height and the time that were taken over last. -/
def kernelChoiceLoop : IndexChain → ℕ → ℕ → Option KernelModifier
  | [], _, _ => none
  | pindex :: rest, nStakeModifierHeight, nStakeModifierTime =>
    if earlyEnough env stake nTimeTx nStakeModifierTime then
      some ⟨pindex.nStakeModifier, nStakeModifierHeight, nStakeModifierTime⟩
    else match rest with
      | [] => none
      | pprev :: _ =>
        if pprev.generatedStakeModifier then kernelChoiceLoop rest pprev.nHeight pprev.getBlockTime
        else kernelChoiceLoop rest nStakeModifierHeight nStakeModifierTime

/-- `GetKernelStakeModifierV05` with the height and the time. -/
def kernelChoice : IndexChain → Option KernelModifier
  | [] => none
  | pindexPrev :: rest =>
    if earlyEnough env stake nTimeTx pindexPrev.getBlockTime then none
    else kernelChoiceLoop env stake nTimeTx (pindexPrev :: rest) pindexPrev.nHeight
      pindexPrev.getBlockTime

/-- An ancestor whose modifier the kernel may get. -/
def Offers (pindex : CBlockIndex) : Prop :=
  pindex.generatedStakeModifier = true ∧ earlyEnough env stake nTimeTx pindex.getBlockTime

instance (pindex : CBlockIndex) : Decidable (Offers env stake nTimeTx pindex) :=
  inferInstanceAs (Decidable (_ ∧ _))

end

variable {env : Env} {stake : StakeRules} {nTimeTx : UInt32}

/-! ## The modifier alone -/

theorem kernelModifierLoop_eq (ancestors : IndexChain) (height time : ℕ) :
    kernelModifierLoop env stake nTimeTx ancestors time =
      (kernelChoiceLoop env stake nTimeTx ancestors height time).map
        KernelModifier.nStakeModifier := by
  induction ancestors generalizing height time with
  | nil => rfl
  | cons pindex rest ih =>
    unfold kernelModifierLoop kernelChoiceLoop
    by_cases hearly : earlyEnough env stake nTimeTx time
    · rw [if_pos hearly]
      exact if_pos hearly
    · rw [if_neg hearly]
      refine (if_neg hearly).trans ?_
      cases rest with
      | nil => rfl
      | cons pprev rest =>
        dsimp only
        split_ifs with hgenerated
        · exact ih pprev.nHeight pprev.getBlockTime
        · exact ih height time

/-- The function that the kernel hash uses returns the modifier of the choice. -/
theorem getKernelStakeModifierV05_eq (ancestors : IndexChain) :
    getKernelStakeModifierV05 env stake ancestors nTimeTx =
      (kernelChoice env stake nTimeTx ancestors).map KernelModifier.nStakeModifier := by
  cases ancestors with
  | nil => rfl
  | cons pindexPrev rest =>
    unfold getKernelStakeModifierV05 kernelChoice
    dsimp only
    by_cases hearly : earlyEnough env stake nTimeTx pindexPrev.getBlockTime
    · rw [if_pos hearly]
      exact if_pos hearly
    · rw [if_neg hearly, ← kernelModifierLoop_eq]
      exact if_neg hearly

/-! ## The highest ancestor that offers a modifier -/

/-- What the function returns if it stops at an entry that offers a modifier. -/
def CBlockIndex.kernelModifier (pindex : CBlockIndex) : KernelModifier :=
  ⟨pindex.nStakeModifier, pindex.nHeight, pindex.getBlockTime⟩

/-- From a time that is too late the loop goes on to the next ancestor that offers one. -/
theorem kernelChoiceLoop_eq_find? {pindex : CBlockIndex} {rest : IndexChain} {height time : ℕ}
    (hlate : ¬ earlyEnough env stake nTimeTx time) :
    kernelChoiceLoop env stake nTimeTx (pindex :: rest) height time =
      (rest.find? fun ancestor => Offers env stake nTimeTx ancestor).map
        CBlockIndex.kernelModifier := by
  induction rest generalizing pindex height time with
  | nil =>
    rw [kernelChoiceLoop, if_neg hlate]
    rfl
  | cons pprev rest ih =>
    rw [kernelChoiceLoop, if_neg hlate, List.find?_cons]
    by_cases hoffers : Offers env stake nTimeTx pprev
    · rw [if_pos hoffers.1, decide_eq_true hoffers]
      unfold kernelChoiceLoop
      exact if_pos hoffers.2
    · rw [decide_eq_false hoffers]
      split_ifs with hgenerated
      · exact ih fun hearly => hoffers ⟨hgenerated, hearly⟩
      · exact ih hlate

/-- The function succeeds exactly if the previous block is too late and some strict ancestor
offers a modifier.  The highest of them is chosen, whatever the order of the times. -/
theorem kernelChoice_eq_some_iff (pindexPrev : CBlockIndex) (ancestors : IndexChain)
    (choice : KernelModifier) :
    kernelChoice env stake nTimeTx (pindexPrev :: ancestors) = some choice ↔
      ¬ earlyEnough env stake nTimeTx pindexPrev.getBlockTime ∧
        ∃ higher ancestor lower, ancestors = higher ++ ancestor :: lower ∧
          Offers env stake nTimeTx ancestor ∧
          (∀ other ∈ higher, ¬ Offers env stake nTimeTx other) ∧
          choice = ancestor.kernelModifier := by
  unfold kernelChoice
  dsimp only
  by_cases hearly : earlyEnough env stake nTimeTx pindexPrev.getBlockTime
  · rw [if_pos hearly]
    simp [hearly]
  · rw [if_neg hearly, kernelChoiceLoop_eq_find? hearly, Option.map_eq_some_iff]
    constructor
    · rintro ⟨ancestor, hfind, rfl⟩
      obtain ⟨hoffers, higher, lower, hsplit, hhigher⟩ := List.find?_eq_some_iff_append.mp hfind
      exact ⟨hearly, higher, ancestor, lower, hsplit, by simpa using hoffers,
        fun other hmem => by simpa using hhigher other hmem, rfl⟩
    · rintro ⟨-, higher, ancestor, lower, hsplit, hoffers, hhigher, rfl⟩
      refine ⟨ancestor, List.find?_eq_some_iff_append.mpr ⟨decide_eq_true hoffers, higher, lower,
        hsplit, fun other hmem => ?_⟩, rfl⟩
      rw [decide_eq_false (hhigher other hmem)]
      rfl

end Patchcoin
