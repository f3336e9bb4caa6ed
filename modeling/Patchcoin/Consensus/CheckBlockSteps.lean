import Patchcoin.Consensus.CheckBlock

/-!
# What the checks of a block leave behind

The checks write nothing but the three flags of the object, and the content of
the block stays (`CBlock.content`).  The tests before the signature are a
function of the content, apart from the Merkle root, which is not computed
again on an object that remembers it.
-/

namespace Patchcoin

open Outcome CTransaction

variable {env : Env} {block block' : CBlock} {fCheckPOW fCheckMerkleRoot fCheckSignature : Bool}

/-! ## Content -/

/-- The block without the verdicts that the object remembers. -/
def CBlock.content (block : CBlock) : CBlock :=
  { block with
    fChecked := false
    m_checked_witness_commitment := false
    m_checked_merkle_root := false }

section

variable (h : block'.content = block.content)
include h

theorem CBlock.header_eq_of_content_eq :
    block'.toCBlockHeader = block.toCBlockHeader := congrArg (fun b => b.toCBlockHeader) h

theorem CBlock.vtx_eq_of_content_eq :
    block'.vtx = block.vtx := congrArg (fun b => b.vtx) h

theorem CBlock.vClaim_eq_of_content_eq :
    block'.vClaim = block.vClaim := congrArg (fun b => b.vClaim) h

end

/-! ## The flags of the two commitments -/

theorem checkMerkleRoot_cases (block : CBlock) : (checkMerkleRoot env block).state = block ∨
      (checkMerkleRoot env block).state = { block with m_checked_merkle_root := true } := by
  unfold checkMerkleRoot
  split_ifs
  · exact .inl rfl
  · dsimp only
    split_ifs
    · exact .inl rfl
    · exact .inl rfl
    · exact .inr rfl

theorem content_checkMerkleRoot (block : CBlock) :
    (checkMerkleRoot env block).state.content = block.content := by
  rcases @checkMerkleRoot_cases env block with h | h
  · rw [h]
  · rw [h]
    rfl

theorem checkMerkleRoot_ok_iff (hfresh : block.m_checked_merkle_root = false) :
    (checkMerkleRoot env block).result = .ok () ↔
      block.hashMerkleRoot = (blockMerkleRoot env.host.hash256 block).1 ∧
        (blockMerkleRoot env.host.hash256 block).2 = false := by
  unfold checkMerkleRoot
  rw [if_neg (by simp [hfresh])]
  dsimp only
  split_ifs with hroot hmutated
  · simp [hroot]
  · simp [hmutated]
  · simp only [ne_eq, not_not] at hroot
    simp [hroot, hmutated]

theorem checkWitnessMalleation_cases (block : CBlock) (expect : Bool) :
    (checkWitnessMalleation env block expect).state = block ∨
      (checkWitnessMalleation env block expect).state =
        { block with m_checked_witness_commitment := true } := by
  have hunexpected : (if block.vtx.any hasWitness then
      fail block (.invalid .BLOCK_MUTATED "unexpected-witness")
      else (pass block : Outcome CBlock BlockFail Unit)).state = block := by
    split_ifs
    · rfl
    · rfl
  unfold checkWitnessMalleation
  dsimp only
  split
  · exact .inl hunexpected
  · split
    · exact .inl rfl
    · split
      · exact .inl hunexpected
      · split
        · split
          · exact .inl rfl
          · split
            · exact .inl rfl
            · exact .inr rfl
        · exact .inl rfl

/-- What `CheckWitnessMalleation` has established on a new object: the commitment of the
coinbase, or that there is no witness. -/
theorem checkWitnessMalleation_ok_iff {expect : Bool}
    (hfresh : block.m_checked_witness_commitment = false) :
    (checkWitnessMalleation env block expect).result = .ok () ↔
      (expect = true ∧ ∃ commitment nonce, getWitnessCommitment block = some commitment ∧
        coinbaseWitness block = [nonce] ∧ nonce.length = 32 ∧
        (env.host.hash256 ((blockWitnessMerkleRoot env.host.hash256 block).1.toBytes ++
          nonce)).toBytes = (commitment.scriptPubKey.bytes.drop 6).take 32) ∨
      ((expect = false ∨ getWitnessCommitment block = none) ∧
        block.vtx.any hasWitness = false) := by
  have hunexpected : (if block.vtx.any hasWitness then
      fail block (.invalid .BLOCK_MUTATED "unexpected-witness")
      else (pass block : Outcome CBlock BlockFail Unit)).result = .ok () ↔
      block.vtx.any hasWitness = false := by
    split_ifs with hany
    · simp [hany]
    · simp [hany]
  unfold checkWitnessMalleation
  cases expect with
  | false =>
    rw [if_pos (show (!false) = true from rfl), hunexpected]
    simp
  | true =>
    rw [if_neg (by simp), if_neg (by simp [hfresh])]
    cases hcommitment : getWitnessCommitment block with
    | none =>
      rw [hunexpected]
      simp
    | some commitment =>
      match hstack : coinbaseWitness block with
      | [] => simp
      | _ :: _ :: _ => simp
      | [nonce] =>
        dsimp only
        split_ifs with hlength hmatch
        · simp [hlength]
        · simp [hmatch]
        · simp only [ne_eq, not_not] at hlength hmatch
          simp [hlength, hmatch]

theorem content_checkWitnessMalleation (block : CBlock) (expect : Bool) :
    (checkWitnessMalleation env block expect).state.content = block.content := by
  rcases @checkWitnessMalleation_cases env block expect with h | h
  · rw [h]
  · rw [h]
    rfl

/-- `IsBlockMutated` on a block with a coinbase. -/
theorem isBlockMutated_eq_false_iff {check_witness_root : Bool}
    (hfresh : block.m_checked_witness_commitment = false)
    (hcoinbase : (block.vtx.head?.map isCoinBase).getD false = true) :
    (isBlockMutated env block check_witness_root).2 = false ↔
      (checkMerkleRoot env block).result = .ok () ∧
        (checkWitnessMalleation env block check_witness_root).result = .ok () := by
  have hstate : (checkWitnessMalleation env (checkMerkleRoot env block).state
      check_witness_root).result = .ok () ↔
      (checkWitnessMalleation env block check_witness_root).result = .ok () := by
    rcases @checkMerkleRoot_cases env block with h | h
    · rw [h]
    · rw [h, checkWitnessMalleation_ok_iff hfresh,
        @checkWitnessMalleation_ok_iff env { block with m_checked_merkle_root := true } _ hfresh]
      exact Iff.rfl
  unfold isBlockMutated
  dsimp only
  cases hroot : (checkMerkleRoot env block).result with
  | error failure => simp
  | ok value =>
    rw [if_neg (by simp [hcoinbase]), ← hstate, Bool.not_eq_false', passed_iff]
    simp

/-! ## CheckBlock -/

theorem checkBlockTests_cases (block : CBlock) :
    (checkBlockTests env fCheckPOW fCheckMerkleRoot block).state = block ∨
      (checkBlockTests env fCheckPOW fCheckMerkleRoot block).state =
        { block with m_checked_merkle_root := true } := by
  refine andThen_invariant (P := fun next => next = block ∨
    next = { block with m_checked_merkle_root := true }) (.inl rfl) ?_
  intro _ _ _
  refine andThen_invariant (P := fun next => next = block ∨
    next = { block with m_checked_merkle_root := true }) ?_ (fun _ _ h => h)
  split_ifs
  · exact checkMerkleRoot_cases block
  · exact .inl rfl

/-- The tests after the Merkle root read the content only. -/
theorem checkBlockBody_congr (h : block'.content = block.content) :
    checkBlockBody env block' = checkBlockBody env block := by
  have hbody (block : CBlock) : checkBlockBody env block = checkBlockBody env block.content := rfl
  rw [hbody, h, ← hbody]

/-- What `CheckBlock` asks of a block after the Merkle root. -/
structure BodyPasses (env : Env) (block : CBlock) : Prop where
  nonempty : block.vtx ≠ []
  count : block.vtx.length * WITNESS_SCALE_FACTOR ≤ MAX_BLOCK_WEIGHT
  size : blockSize block * WITNESS_SCALE_FACTOR ≤ MAX_BLOCK_WEIGHT
  coinbase : (block.vtx.head?.map CTransaction.isCoinBase).getD false = true
  others : ∀ tx ∈ block.vtx.drop 1, tx.isCoinBase = false
  stakes : ∀ tx ∈ block.vtx.drop 2, tx.isCoinStake = false
  emptyReward : block.isProofOfStake = true →
    ((block.vtx.head?.bind fun tx => tx.vout.head?).map CTxOut.isEmpty).getD false = true
  coinbaseTime : block.nTime.toNat ≤
    timeOr ((block.vtx.head?.map CTransaction.nTime).getD 0) block.nTime.toNat +
      if isProtocolV09 env.params block.nTime.toNat then MAX_FUTURE_BLOCK_TIME
      else MAX_FUTURE_BLOCK_TIME_PREV9
  stakeTime : block.isProofOfStake = true → checkCoinStakeTimestamp env block.nTime.toNat
    (timeOr ((block.vtx[1]?.map CTransaction.nTime).getD 0) block.nTime.toNat) = true
  transactions : checkTransactions block.vtx = .ok ()
  sigOps : (block.vtx.map getLegacySigOpCount).sum * WITNESS_SCALE_FACTOR ≤ MAX_BLOCK_SIGOPS_COST

theorem bodyPasses_of_ok (h : checkBlockBody env block = .ok ()) : BodyPasses env block := by
  unfold checkBlockBody blockConsensus at h
  dsimp only at h
  cases htransactions : checkTransactions block.vtx with
  | error failure =>
    rw [htransactions] at h
    split_ifs at h
  | ok value =>
    rw [htransactions] at h
    generalize hlimit : (if isProtocolV09 env.params block.nTime.toNat then MAX_FUTURE_BLOCK_TIME
      else MAX_FUTURE_BLOCK_TIME_PREV9) = limit at h
    split_ifs at h with hlength hfirst hothers hstakes hempty htime hstake hsigOps
    push Not at hlength
    simp only [Bool.not_eq_true', Bool.not_eq_false] at hfirst
    simp only [Bool.and_eq_true, Bool.not_eq_true', not_and, Bool.not_eq_false] at hempty hstake
    refine ⟨?_, hlength.2.1, hlength.2.2, hfirst, ?_, ?_, hempty, ?_, hstake,
      htransactions, not_lt.mp hsigOps⟩
    · intro hnil
      exact hlength.1 (List.isEmpty_iff.mpr hnil)
    · simpa using hothers
    · simpa using hstakes
    · rw [hlimit]
      exact not_lt.mp htime

theorem checkBlockTests_ok_iff (block : CBlock) :
    (checkBlockTests env fCheckPOW fCheckMerkleRoot block).result = .ok () ↔
      checkBlockKind env fCheckPOW block = .ok () ∧
        (fCheckMerkleRoot = true → (checkMerkleRoot env block).result = .ok ()) ∧
        checkBlockBody env block = .ok () := by
  unfold checkBlockTests
  simp only [andThen_eq_ok_iff, result_lift, state_lift]
  constructor
  · rintro ⟨⟨⟩, hkind, ⟨⟩, hroot, hbody⟩
    refine ⟨hkind, fun hcheck => ?_, ?_⟩
    · rwa [if_pos hcheck] at hroot
    · rw [checkBlockBody_congr] at hbody
      · exact hbody
      · split_ifs
        · exact content_checkMerkleRoot block
        · rfl
  · rintro ⟨hkind, hroot, hbody⟩
    refine ⟨(), hkind, (), ?_, ?_⟩
    · split_ifs with hcheck
      · exact hroot hcheck
      · rfl
    · rw [checkBlockBody_congr]
      · exact hbody
      · split_ifs
        · exact content_checkMerkleRoot block
        · rfl

/-- `CheckBlock` on an object that does not remember it. -/
theorem checkBlock_of_not_fChecked (hfresh : block.fChecked = false) :
    checkBlock env fCheckPOW fCheckMerkleRoot fCheckSignature block =
      (checkBlockTests env fCheckPOW fCheckMerkleRoot block).andThen fun _ block =>
        let block :=
          if fCheckPOW && fCheckMerkleRoot then { block with fChecked := true } else block
        if fCheckMerkleRoot && fCheckSignature &&
            (block.isProofOfStake || !isBTC16BIPsEnabled env.params block.nTime.toNat) &&
            !checkBlockSignature env block then
          .fail block (.invalid .BLOCK_CONSENSUS "bad-blk-sign")
        else .pass block := by
  unfold checkBlock
  rw [hfresh]
  rfl

/-- The signature is not asked for, or it is valid. -/
def SignaturePasses (env : Env) (block : CBlock) : Prop :=
  (block.isProofOfStake || !isBTC16BIPsEnabled env.params block.nTime.toNat) = true →
    checkBlockSignature env block = true

instance (env : Env) (block : CBlock) : Decidable (SignaturePasses env block) :=
  inferInstanceAs (Decidable (_ → _))

theorem SignaturePasses.congr (h : block'.content = block.content) :
    SignaturePasses env block' ↔ SignaturePasses env block := by
  have hpass (block : CBlock) :
      SignaturePasses env block ↔ SignaturePasses env block.content := Iff.rfl
  rw [hpass, h, ← hpass]

theorem content_checkBlockTests (block : CBlock) :
    (checkBlockTests env fCheckPOW fCheckMerkleRoot block).state.content = block.content := by
  rcases @checkBlockTests_cases env fCheckPOW fCheckMerkleRoot block with h | h
  · rw [h]
  · rw [h]
    rfl

/-- The object after the tests before the signature, which remembers them all. -/
def testedBlock (env : Env) (block : CBlock) : CBlock :=
  { (checkBlockTests env true true block).state with fChecked := true }

theorem content_testedBlock (block : CBlock) : (testedBlock env block).content = block.content :=
  @content_checkBlockTests env true true block

/-- Once the tests have passed, the object remembers it and the signature decides. -/
theorem checkBlock_of_tests_ok (hfresh : block.fChecked = false)
    (htests : (checkBlockTests env true true block).result = .ok ()) :
    checkBlock env true true true block = if SignaturePasses env block then
      .pass (testedBlock env block)
      else .fail (testedBlock env block) (.invalid .BLOCK_CONSENSUS "bad-blk-sign") := by
  have hstep : checkBlock env true true true block =
      if ((testedBlock env block).isProofOfStake ||
          !isBTC16BIPsEnabled env.params (testedBlock env block).nTime.toNat) &&
          !checkBlockSignature env (testedBlock env block) then
        .fail (testedBlock env block) (.invalid .BLOCK_CONSENSUS "bad-blk-sign")
      else .pass (testedBlock env block) := by
    rw [checkBlock_of_not_fChecked hfresh, andThen_of_ok htests]
    rfl
  have hsame : SignaturePasses env (testedBlock env block) ↔ SignaturePasses env block :=
    SignaturePasses.congr (content_testedBlock block)
  rw [hstep]
  by_cases hsign : SignaturePasses env block
  · have hpass := hsame.mpr hsign
    rw [if_pos hsign, if_neg]
    simpa [SignaturePasses] using hpass
  · have hfail := mt hsame.mp hsign
    rw [if_neg hsign, if_pos]
    simpa [SignaturePasses] using hfail

theorem checkBlock_ok_iff (hfresh : block.fChecked = false) :
    (checkBlock env true true true block).result = .ok () ↔
      (checkBlockTests env true true block).result = .ok () ∧ SignaturePasses env block := by
  cases htests : (checkBlockTests env true true block).result with
  | error failure =>
    rw [checkBlock_of_not_fChecked hfresh, andThen_of_error htests]
    simp
  | ok value =>
    rw [checkBlock_of_tests_ok hfresh htests]
    split_ifs with hsign
    · simp [hsign]
    · simp [hsign]

theorem content_checkBlock (block : CBlock) :
    (checkBlock env fCheckPOW fCheckMerkleRoot fCheckSignature block).state.content =
      block.content := by
  cases hchecked : block.fChecked with
  | true =>
    unfold checkBlock
    rw [hchecked]
    rfl
  | false =>
    rw [checkBlock_of_not_fChecked hchecked]
    refine andThen_invariant (P := fun next : CBlock => next.content = block.content)
      ?_ ?_
    · exact content_checkBlockTests block
    · intro _ _ hnext
      dsimp only
      split_ifs
      all_goals exact hnext

/-! ## ContextualCheckBlock -/

theorem contextualCheckBlock_ok_iff {ancestors : IndexChain} (block : CBlock) :
    (contextualCheckBlock env ancestors block).result = .ok () ↔
      contextualTests env ancestors block = .ok () ∧
        (checkWitnessMalleation env block (enforceBTC16BIPs env ancestors)).result = .ok () ∧
        getBlockWeight block ≤ MAX_BLOCK_WEIGHT := by
  have hweight (checked : CBlock) (h : checked.content = block.content) :
      getBlockWeight checked = getBlockWeight block := by
    have hcontent (block : CBlock) : getBlockWeight block = getBlockWeight block.content := rfl
    rw [hcontent, h, ← hcontent]
  have hlast (checked : CBlock) (h : checked.content = block.content) :
      (if MAX_BLOCK_WEIGHT < getBlockWeight checked then
        fail checked (.invalid .BLOCK_CONSENSUS "bad-blk-weight")
        else (pass checked : Outcome CBlock BlockFail Unit)).result = .ok () ↔
      getBlockWeight block ≤ MAX_BLOCK_WEIGHT := by
    rw [hweight checked h]
    split_ifs with hheavy
    · simp [hheavy]
    · simpa using hheavy
  have hcontent := @content_checkWitnessMalleation env block (enforceBTC16BIPs env ancestors)
  unfold contextualCheckBlock
  simp only [andThen_eq_ok_iff, result_lift, state_lift]
  constructor
  · rintro ⟨⟨⟩, htests, ⟨⟩, hwitness, hlight⟩
    exact ⟨htests, hwitness, (hlast _ hcontent).mp hlight⟩
  · rintro ⟨htests, hwitness, hlight⟩
    exact ⟨(), htests, (), hwitness, (hlast _ hcontent).mpr hlight⟩

end Patchcoin
