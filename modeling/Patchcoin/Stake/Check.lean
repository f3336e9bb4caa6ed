import Patchcoin.Stake.Kernel
import Patchcoin.Chain.BlockIndex

/-!
# The stake check of an accepted block

`AcceptBlock` runs `PeercoinContextualBlockChecks` on the entry of a new block.
The verdict needs little of the entry: whether it counts as proof of stake, the
stake it already holds and its time and height.  What the check writes, on the
other hand, is added to the flags that the entry has.  `stakeCheck_eq` takes the
two apart: first the verdict, then the entry with the stake written into it, and
the checkpoint on the checksum of that entry.
-/

namespace Patchcoin

open CBlockIndex

/-- The state in which `AcceptBlock` calls the check, which reads nothing else. -/
def stakeState (setStakeSeen : List (COutPoint × UInt32)) (pindex : CBlockIndex) (block : CBlock) :
    ConnectState where
  g_claims := ∅
  setStakeSeen := setStakeSeen
  g_claimindex := ∅
  pindex := pindex
  view := ⟨fun _ => none, 0⟩
  block := block

/-- What the check finds out before it writes anything. -/
structure StakeVerdict where
  hashProofOfStake : Uint256
  nStakeModifier : UInt64
  fGeneratedStakeModifier : Bool
  nEntropyBit : ℕ

/-- The bits that the check adds to the flags of an entry. -/
def StakeVerdict.flags (verdict : StakeVerdict) : UInt32 :=
  (if verdict.nEntropyBit = 0 then 0 else CBlockIndex.BLOCK_STAKE_ENTROPY) |||
    (if verdict.fGeneratedStakeModifier then CBlockIndex.BLOCK_STAKE_MODIFIER else 0)

/-- The entry with the stake written into it, but for the checksum. -/
def CBlockIndex.staked (pindex : CBlockIndex) (block : CBlock) (verdict : StakeVerdict) :
    CBlockIndex :=
  { pindex with
    nFlags := pindex.nFlags ||| verdict.flags
    nStakeModifier := verdict.nStakeModifier
    prevoutStake := if block.isProofOfStake then block.getProofOfStake.1 else pindex.prevoutStake
    nStakeTime := if block.isProofOfStake then (coinstake block).nTime else pindex.nStakeTime
    hashProofOfStake :=
      if block.isProofOfStake then verdict.hashProofOfStake else pindex.hashProofOfStake }

/-- The set of stakes after a block was accepted. -/
def seenAfter (setStakeSeen : List (COutPoint × UInt32)) (block : CBlock) (nTime : UInt32) :
    List (COutPoint × UInt32) :=
  if block.isProofOfStake then setStakeSeen.insert (block.getProofOfStake.1, nTime)
  else setStakeSeen

section

variable (kernel : Kernel) (ancestors : IndexChain)

/-- The proof of stake, its uniqueness and the next stake modifier. -/
def stakeVerdict (setStakeSeen : List (COutPoint × UInt32)) (pindex : CBlockIndex)
    (block : CBlock) : Except BlockFail StakeVerdict :=
  match checkStake kernel ancestors (stakeState setStakeSeen pindex block) with
  | .error failure => .error failure
  | .ok hashProofOfStake =>
    match kernel.computeNextStakeModifier pindex ancestors with
    | none => .error .silent
    | some (nStakeModifier, fGeneratedStakeModifier) =>
      .ok { hashProofOfStake, nStakeModifier, fGeneratedStakeModifier,
            nEntropyBit := kernel.getStakeEntropyBit block }

/-- The checksum of an entry with the stake of a block. -/
def stakeChecksum (pindex : CBlockIndex) (verdict : StakeVerdict) : UInt32 :=
  kernel.getStakeModifierChecksum
    { pindex with
      nFlags := pindex.nFlags ||| verdict.flags
      nStakeModifier := verdict.nStakeModifier
      hashProofOfStake := verdict.hashProofOfStake } ancestors

/-- `PeercoinContextualBlockChecks` as `AcceptBlock` calls it: the entry and the set
of stakes that it leaves behind if it passes. -/
def stakeCheck (setStakeSeen : List (COutPoint × UInt32)) (pindex : CBlockIndex) (block : CBlock) :
    Except BlockFail (CBlockIndex × List (COutPoint × UInt32)) :=
  let checked := peercoinContextualBlockChecks kernel ancestors false
    (stakeState setStakeSeen pindex block)
  match checked.result with
  | .error failure => .error failure
  | .ok () => .ok (checked.state.pindex, checked.state.setStakeSeen)

variable {kernel ancestors}

/-- The two writes of flags, one after the other, add the flags of the verdict. -/
theorem flags_written (verdict : StakeVerdict) (nFlags : UInt32) :
    (if verdict.fGeneratedStakeModifier then
        (nFlags ||| (if verdict.nEntropyBit = 0 then 0 else CBlockIndex.BLOCK_STAKE_ENTROPY)) |||
          CBlockIndex.BLOCK_STAKE_MODIFIER
      else nFlags ||| (if verdict.nEntropyBit = 0 then 0 else CBlockIndex.BLOCK_STAKE_ENTROPY)) =
      nFlags ||| verdict.flags := by
  unfold StakeVerdict.flags
  cases verdict.fGeneratedStakeModifier with
  | true => rw [if_pos rfl, if_pos rfl, UInt32.or_assoc]
  | false => simp

section

variable (hbit : ∀ block, kernel.getStakeEntropyBit block ≤ 1)
    (setStakeSeen : List (COutPoint × UInt32)) (pindex : CBlockIndex) (block : CBlock)
include hbit setStakeSeen pindex block

theorem stagedChecksum_eq
    (hashProofOfStake : Uint256) (nStakeModifier : UInt64) (fGenerated : Bool) :
    stagedChecksum kernel ancestors hashProofOfStake nStakeModifier fGenerated
        (stakeState setStakeSeen pindex block) =
      some (stakeChecksum kernel ancestors pindex
        ⟨hashProofOfStake, nStakeModifier, fGenerated, kernel.getStakeEntropyBit block⟩) := by
  have hle : ¬ 1 < kernel.getStakeEntropyBit block := by have := hbit block; omega
  simp only [stagedChecksum, stakeState, setStakeEntropyBit, hle, if_false,
    Option.map_some, setStakeModifier, stakeChecksum, ← flags_written]
  rfl

theorem writeStake_eq
    (hashProofOfStake : Uint256) (nStakeModifier : UInt64) (fGenerated : Bool) (checksum : UInt32) :
    writeStake kernel hashProofOfStake nStakeModifier fGenerated checksum
        (stakeState setStakeSeen pindex block) =
      .pass (stakeState (seenAfter setStakeSeen block pindex.nTime)
        { pindex.staked block
            ⟨hashProofOfStake, nStakeModifier, fGenerated, kernel.getStakeEntropyBit block⟩ with
          nStakeModifierChecksum := checksum } block) := by
  have hle : ¬ 1 < kernel.getStakeEntropyBit block := by have := hbit block; omega
  by_cases hstake : block.isProofOfStake = true
  · simp only [writeStake, noteStake, stakeState, hstake, if_true, setStakeEntropyBit,
      hle, if_false, setStakeModifier, seenAfter, staked,
      ← flags_written]
  · simp only [writeStake, noteStake, stakeState, hstake, setStakeEntropyBit,
      hle, if_false, setStakeModifier, seenAfter, staked,
      ← flags_written, Bool.false_eq_true, if_false]

/-- The check is the verdict, then the checkpoint on the entry that would be written. -/
theorem stakeCheck_eq : stakeCheck kernel ancestors setStakeSeen pindex block =
      match stakeVerdict kernel ancestors setStakeSeen pindex block with
      | .error failure => .error failure
      | .ok verdict =>
        if kernel.checkStakeModifierCheckpoints pindex.nHeight
            (stakeChecksum kernel ancestors pindex verdict) then
          .ok ({ pindex.staked block verdict with
              nStakeModifierChecksum := stakeChecksum kernel ancestors pindex verdict },
            seenAfter setStakeSeen block pindex.nTime)
        else .error .silent := by
  unfold stakeCheck stakeVerdict peercoinContextualBlockChecks
  cases hcheck : checkStake kernel ancestors (stakeState setStakeSeen pindex block) with
  | error failure => rfl
  | ok hashProofOfStake =>
    have hpindex : (stakeState setStakeSeen pindex block).pindex = pindex := rfl
    simp only [hpindex]
    cases hnext : kernel.computeNextStakeModifier pindex ancestors with
    | none => rfl
    | some next =>
      obtain ⟨nStakeModifier, fGenerated⟩ := next
      simp only [stagedChecksum_eq hbit, writeStake_eq hbit, Bool.false_eq_true, if_false]
      cases hpoint : kernel.checkStakeModifierCheckpoints pindex.nHeight
          (stakeChecksum kernel ancestors pindex ⟨hashProofOfStake, nStakeModifier, fGenerated,
            kernel.getStakeEntropyBit block⟩) with
      | true => rfl
      | false => rfl

end

end

end Patchcoin
