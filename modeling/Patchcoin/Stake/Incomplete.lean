import Patchcoin.Stake.Bounds

/-!
# Blocks that fail for want of a transaction index

`CheckProofOfStake` looks the staked transaction up in the transaction index of the
node.  If there is no index, if the index has not come to the transaction yet or if
the block file cannot be read, it fails like for a wrong stake, and `AcceptBlock`
marks the block as failed for good.

The transaction index enters the stake check at one place only, with the entry of the
staked transaction (`readStaked`).  So two nodes that read the same entry agree
(`stakeCheck_congr`), and a node that reads nothing refuses every proof of stake.
What remains is a node that reads another entry than a complete one does, with which the
check fails (`RefusesStaked`).
-/

namespace Patchcoin

variable {env : Env} {rules : HeaderRules} {stake : StakeRules}
variable {call : AcceptCall} {st : AcceptState} {block : CBlock} {ancestors : IndexChain}
  {pindex : IndexEntry} {g_txindex g_txindex' : Option TxIndex} {view : StakeView}

/-- The block that is written at a position, a header and a transaction. -/
abbrev IndexedTx := CDiskTxPos × CBlockHeader × CTransaction

/-- What the check uses of it: the offset in the block, the header and the transaction. -/
def IndexedTx.used (found : IndexedTx) : UInt32 × CBlockHeader × CTransaction :=
  (found.1.nTxOffset, found.2)

/-- What a node reads about the staked transaction of a block. -/
def readStaked (g_txindex : Option TxIndex) (block : CBlock) : Option IndexedTx :=
  g_txindex.bind fun index => index.readTx (stakedPrevout block).hash

/-- A transaction index that holds the transactions of a chain, where every block is
read from disk. -/
def TxIndex.CompleteFor (env : Env) (disk : Uint256 → Option CBlock) (chain : IndexChain)
    (index : TxIndex) : Prop :=
  ∀ pindex ∈ chain, ∃ block, disk pindex.hashBlock = some block ∧
    ∀ tx ∈ block.vtx, ∃ postx, index.readTx (tx.getHash env.host.hash256) =
      some (postx, block.toCBlockHeader, tx)

/-- A transaction index that answers every question by one transaction. -/
def TxIndex.constant (found : IndexedTx) : TxIndex where
  findTxPosition _ := some found.1
  cachedTxs _ := some found.2
  readBlockFile _ := none

/-- The same call on a node with another transaction index. -/
def AcceptCall.withIndex (call : AcceptCall) (g_txindex : Option TxIndex) : AcceptCall :=
  { call with g_txindex }

/-- The stake check as `AcceptBlock` runs it. -/
def acceptStakeCheck (env : Env) (stake : StakeRules) (call : AcceptCall) (pindex : IndexEntry)
    (st : AcceptState) : Except BlockFail (CBlockIndex × List (COutPoint × UInt32)) :=
  stakeCheck (call.kernel env stake st.man) (st.man.index.ancestors pindex) st.man.setStakeSeen
    pindex.toCBlockIndex st.block

/-- The block comes to its stake check, which fails, and is marked because of it
(`MarkedByStake.index_eq`). -/
def MarkedByStake (env : Env) (rules : HeaderRules) (stake : StakeRules) (call : AcceptCall)
    (st : AcceptState) : Prop :=
  ∃ pindex, (acceptBlockTests env rules call st).result = .ok (some pindex) ∧
    (∃ failure, acceptStakeCheck env stake call pindex (acceptBlockTests env rules call st).state =
      .error failure) ∧
    (acceptBlockStake env stake call pindex (acceptBlockTests env rules call st).state).result =
      .error (.refused (.invalid .BLOCK_CONSENSUS "bad-pos"))

/-- The block comes to its stake check and passes it. -/
def PassesStake (env : Env) (rules : HeaderRules) (stake : StakeRules) (call : AcceptCall)
    (st : AcceptState) : Prop :=
  ∃ pindex, (acceptBlockTests env rules call st).result = .ok (some pindex) ∧
    readsOutOfBounds env stake call (acceptBlockTests env rules call st).state.man pindex
      (acceptBlockTests env rules call st).state.block = false ∧
    ∃ checked, acceptStakeCheck env stake call pindex (acceptBlockTests env rules call st).state =
      .ok checked

/-! ## Where the index is read -/

theorem checkProofOfStake_congr {nBits nTimeTx : UInt32}
    (h : readStaked g_txindex block = readStaked g_txindex' block) :
    checkProofOfStake env stake view g_txindex ancestors (coinstake block) nBits nTimeTx =
      checkProofOfStake env stake view g_txindex' ancestors (coinstake block) nBits nTimeTx := by
  unfold readStaked stakedPrevout at h
  unfold checkProofOfStake
  dsimp only
  rw [h]

/-- Without a proof of stake the index is not read at all. -/
theorem stakeCheck_congr {rand : ℕ → ℕ} {setStakeSeen : List (COutPoint × UInt32)}
    {pindex : CBlockIndex}
    (h : block.isProofOfStake = true → readStaked g_txindex block = readStaked g_txindex' block) :
    stakeCheck (stakeKernel env stake view g_txindex rand) ancestors setStakeSeen pindex block =
      stakeCheck (stakeKernel env stake view g_txindex' rand) ancestors setStakeSeen pindex
        block := by
  have hstake : checkStake (stakeKernel env stake view g_txindex rand) ancestors
        (stakeState setStakeSeen pindex block) =
      checkStake (stakeKernel env stake view g_txindex' rand) ancestors
        (stakeState setStakeSeen pindex block) := by
    unfold checkStake stakeKernel
    dsimp only [stakeState]
    refine ite_congr rfl (fun _ => rfl) fun hproof => ?_
    rw [checkProofOfStake_congr (h (by simpa using hproof))]
  unfold stakeCheck peercoinContextualBlockChecks
  rw [hstake]
  rfl

/-! ## Marked blocks -/

/-- A stake check that fails marks the block, unless it ends the process or throws. -/
theorem acceptBlockStake_marks_iff :
    ((∃ failure, acceptStakeCheck env stake call pindex st = .error failure) ∧
        (acceptBlockStake env stake call pindex st).result =
          .error (.refused (.invalid .BLOCK_CONSENSUS "bad-pos"))) ↔
      readsOutOfBounds env stake call st.man pindex st.block = false ∧
        ∃ failure, acceptStakeCheck env stake call pindex st = .error failure ∧
          failure ≠ .thrown ∧ failure ≠ .aborted := by
  unfold acceptBlockStake acceptStakeCheck
  cases hreads : readsOutOfBounds env stake call st.man pindex st.block with
  | true => simp [Outcome.fail]
  | false =>
    simp only [Bool.false_eq_true, if_false, true_and]
    cases hcheck : stakeCheck (call.kernel env stake st.man) (st.man.index.ancestors pindex)
        st.man.setStakeSeen pindex.toCBlockIndex st.block with
    | ok checked => simp
    | error failure =>
      cases failure with
      | thrown => simp [Outcome.fail]
      | aborted => simp [Outcome.fail]
      | invalid result reason => simp [Outcome.fail]
      | silent => simp [Outcome.fail]
      | error reason => simp [Outcome.fail]

/-- `CheckProofOfStake` fails, and the stake check with it. -/
theorem acceptStakeCheck_of_error {failure : KernelFail} (hstake : st.block.isProofOfStake = true)
    (h : blockProofOfStake env stake call st.man pindex st.block = .error failure) :
    acceptStakeCheck env stake call pindex st = .error failure.toBlockFail := by
  have hcheck : checkStake (call.kernel env stake st.man) (st.man.index.ancestors pindex)
      (stakeState st.man.setStakeSeen pindex.toCBlockIndex st.block) =
        .error failure.toBlockFail := by
    have hblock : (stakeState st.man.setStakeSeen pindex.toCBlockIndex
        st.block).block.isProofOfStake = true := hstake
    unfold blockProofOfStake at h
    unfold checkStake AcceptCall.kernel stakeKernel
    rw [if_neg (by rw [hblock]; simp)]
    dsimp only [stakeState]
    rw [h]
    rfl
  unfold acceptStakeCheck stakeCheck peercoinContextualBlockChecks
  rw [hcheck]
  rfl

/-- A node that reads nothing about the staked transaction fails the block. -/
theorem acceptStakeCheck_of_none (hstake : st.block.isProofOfStake = true)
    (hread : readStaked call.g_txindex st.block = none) :
    readsOutOfBounds env stake call st.man pindex st.block = false ∧
      acceptStakeCheck env stake call pindex st = .error .silent := by
  have hproof : blockProofOfStake env stake call st.man pindex st.block =
      .error (.refused .silent) := by
    unfold readStaked stakedPrevout at hread
    unfold blockProofOfStake checkProofOfStake
    dsimp only
    rw [isCoinStake_coinstake hstake, hread]
    rfl
  refine ⟨?_, acceptStakeCheck_of_error hstake hproof⟩
  unfold readsOutOfBounds
  rw [hproof]
  simp

theorem acceptBlockTests_withIndex (call : AcceptCall) (g_txindex : Option TxIndex)
    (st : AcceptState) :
    acceptBlockTests env rules (call.withIndex g_txindex) st = acceptBlockTests env rules call st :=
  rfl

/-- What a node reads about the staked transaction is not changed by the tests. -/
theorem readStaked_tested (call : AcceptCall) (st : AcceptState) (g_txindex : Option TxIndex) :
    readStaked g_txindex (acceptBlockTests env rules call st).state.block =
      readStaked g_txindex st.block := by
  obtain ⟨-, hprevout⟩ := stakedPrevout_of_content_eq
    (@acceptBlockTests_state env rules call st).1
  unfold readStaked
  rw [hprevout]

theorem markedByStake_of_none
    (htests : (acceptBlockTests env rules call st).result = .ok (some pindex))
    (hstake : st.block.isProofOfStake = true) (hread : readStaked call.g_txindex st.block = none) :
    MarkedByStake env rules stake call st := by
  obtain ⟨hsame, -⟩ := stakedPrevout_of_content_eq (@acceptBlockTests_state env rules call st).1
  obtain ⟨hreads, hcheck⟩ := @acceptStakeCheck_of_none env stake call
    (acceptBlockTests env rules call st).state pindex (hsame.trans hstake)
    (by rw [readStaked_tested, hread])
  exact ⟨pindex, htests, acceptBlockStake_marks_iff.mpr ⟨hreads, .silent, hcheck, by simp, by simp⟩⟩

/-! ## Another entry -/

/-- The checkpoints refuse the entry of the block with a hash of its proof of stake. -/
def MissesCheckpoint (env : Env) (stake : StakeRules) (call : AcceptCall) (pindex : IndexEntry)
    (st : AcceptState) (hashProofOfStake : Uint256) : Prop :=
  let kernel := call.kernel env stake st.man
  let ancestors := st.man.index.ancestors pindex
  ∃ next, kernel.computeNextStakeModifier pindex.toCBlockIndex ancestors = some next ∧
    kernel.checkStakeModifierCheckpoints pindex.nHeight (stakeChecksum kernel ancestors
      pindex.toCBlockIndex ⟨hashProofOfStake, next.1, next.2, kernel.getStakeEntropyBit st.block⟩) =
        false

/-- The check fails with the entry that was read: it has another txid, its output is not the
one that the coinstake signs for, or its kernel hash is refused. -/
def RefusesStaked (env : Env) (stake : StakeRules) (call : AcceptCall) (pindex : IndexEntry)
    (st : AcceptState) (found : IndexedTx) : Prop :=
  found.2.2.getHash env.host.hash256 ≠ (stakedPrevout st.block).hash ∨
    ∃ prevOut, found.2.2.vout[(stakedPrevout st.block).n.toNat]? = some prevOut ∧
      (stake.verifyScript (coinstake st.block) prevOut = false ∨
        match checkStakeKernelHash env stake (st.man.index.stakeView st.man.tip) st.block.nBits
            (st.man.index.ancestors pindex) found.2.1 (found.1.nTxOffset + NORMAL_SERIALIZE_SIZE)
            found.2.2 (stakedPrevout st.block) (txTime (coinstake st.block) st.block) with
        | .error failure => failure.onKernel =
            .refused (.invalid .BLOCK_CONSENSUS "check-kernel-failed")
        | .ok hashProofOfStake => MissesCheckpoint env stake call pindex st hashProofOfStake)

/-- Whether a stake was seen before does not depend on the hash of its proof. -/
theorem checkStake_of_ok {kernel kernel' : Kernel} {st : ConnectState} {hash hash' : Uint256}
    (hstake : st.block.isProofOfStake = true)
    (hproof : kernel.checkProofOfStake ancestors (coinstake st.block) st.block.nBits
      (txTime (coinstake st.block) st.block) = .ok hash)
    (h : checkStake kernel' ancestors st = .ok hash') :
    checkStake kernel ancestors st = .ok hash := by
  unfold checkStake at h ⊢
  rw [hstake, Bool.not_true, if_neg Bool.false_ne_true] at h ⊢
  rw [hproof]
  split at h
  · cases h
  · dsimp only at h ⊢
    split_ifs at h ⊢
    rfl

/-- With a proof of stake, a block that passes with another one fails only at a checkpoint. -/
theorem acceptStakeCheck_of_ok {g_txindex : Option TxIndex} {hashProofOfStake : Uint256}
    (hstake : st.block.isProofOfStake = true)
    (hproof : blockProofOfStake env stake call st.man pindex st.block = .ok hashProofOfStake)
    (hpass : ∃ checked, acceptStakeCheck env stake (call.withIndex g_txindex) pindex st =
      .ok checked) :
    (∃ failure, acceptStakeCheck env stake call pindex st = .error failure ∧ failure ≠ .thrown ∧
        failure ≠ .aborted) ↔ MissesCheckpoint env stake call pindex st hashProofOfStake := by
  obtain ⟨checked, hchecked⟩ := hpass
  have hkernel : (call.kernel env stake st.man).checkProofOfStake (st.man.index.ancestors pindex)
      (coinstake st.block) st.block.nBits (txTime (coinstake st.block) st.block) =
        .ok hashProofOfStake := by
    unfold blockProofOfStake at hproof
    unfold AcceptCall.kernel stakeKernel
    dsimp only
    rw [hproof]
    rfl
  have hbit := getStakeEntropyBit_le_one env
  unfold acceptStakeCheck at hchecked ⊢
  rw [stakeCheck_eq hbit] at hchecked ⊢
  unfold stakeVerdict at hchecked ⊢
  have hsame : ((call.withIndex g_txindex).kernel env stake st.man).computeNextStakeModifier =
      (call.kernel env stake st.man).computeNextStakeModifier := rfl
  rw [hsame] at hchecked
  unfold MissesCheckpoint
  cases hother : checkStake ((call.withIndex g_txindex).kernel env stake st.man)
      (st.man.index.ancestors pindex)
      (stakeState st.man.setStakeSeen pindex.toCBlockIndex st.block) with
  | error failure =>
    rw [hother] at hchecked
    cases hchecked
  | ok hash =>
    rw [hother] at hchecked
    rw [checkStake_of_ok hstake hkernel hother]
    dsimp only at hchecked ⊢
    cases hnext : (call.kernel env stake st.man).computeNextStakeModifier pindex.toCBlockIndex
        (st.man.index.ancestors pindex) with
    | none =>
      rw [hnext] at hchecked
      cases hchecked
    | some next =>
      dsimp only
      split_ifs with hpoint
      · simp [hpoint]
      · simp [hpoint]

theorem marks_iff_refusesStaked {g_txindex : Option TxIndex} {found : IndexedTx}
    (hstake : st.block.isProofOfStake = true)
    (hread : readStaked call.g_txindex st.block = some found)
    (hpass : ∃ checked, acceptStakeCheck env stake (call.withIndex g_txindex) pindex st =
      .ok checked) :
    (readsOutOfBounds env stake call st.man pindex st.block = false ∧
        ∃ failure, acceptStakeCheck env stake call pindex st = .error failure ∧
          failure ≠ .thrown ∧ failure ≠ .aborted) ↔
      RefusesStaked env stake call pindex st found := by
  have hproof : blockProofOfStake env stake call st.man pindex st.block =
      checkStakedTx env stake (st.man.index.stakeView st.man.tip) (st.man.index.ancestors pindex)
        (coinstake st.block) (stakedPrevout st.block) st.block.nBits
        (txTime (coinstake st.block) st.block) found.1 found.2.1 found.2.2 := by
    unfold readStaked stakedPrevout at hread
    unfold blockProofOfStake checkProofOfStake stakedPrevout
    dsimp only
    rw [isCoinStake_coinstake hstake, hread]
    rfl
  have hbounds : readsOutOfBounds env stake call st.man pindex st.block =
      decide (blockProofOfStake env stake call st.man pindex st.block = .error .outOfBounds) := by
    rw [readsOutOfBounds, hstake, Bool.true_and]
  -- a failure of the proof is a failure of the check
  have herror {failure : KernelFail}
      (h : blockProofOfStake env stake call st.man pindex st.block = .error failure) :
      (readsOutOfBounds env stake call st.man pindex st.block = false ∧
        ∃ failure, acceptStakeCheck env stake call pindex st = .error failure ∧
          failure ≠ .thrown ∧ failure ≠ .aborted) ↔
      failure ≠ .outOfBounds ∧ failure.toBlockFail ≠ .thrown ∧ failure.toBlockFail ≠ .aborted := by
    rw [hbounds, h, acceptStakeCheck_of_error hstake h]
    simp
  unfold checkStakedTx at hproof
  unfold RefusesStaked
  by_cases hhash : found.2.2.getHash env.host.hash256 = (stakedPrevout st.block).hash
  · rw [if_neg (not_not.mpr hhash)] at hproof
    rw [or_iff_right (not_not.mpr hhash)]
    cases hout : found.2.2.vout[(stakedPrevout st.block).n.toNat]? with
    | none =>
      rw [hout] at hproof
      rw [herror hproof]
      simp
    | some prevOut =>
      rw [hout] at hproof
      dsimp only at hproof
      simp only [Option.some.injEq, exists_eq_left']
      cases hscript : stake.verifyScript (coinstake st.block) prevOut with
      | false =>
        rw [hscript] at hproof
        rw [herror hproof]
        simp [KernelFail.toBlockFail]
      | true =>
        rw [hscript] at hproof
        simp only [Bool.true_eq_false, false_or]
        cases hkernel : checkStakeKernelHash env stake (st.man.index.stakeView st.man.tip)
            st.block.nBits (st.man.index.ancestors pindex) found.2.1
            (found.1.nTxOffset + NORMAL_SERIALIZE_SIZE) found.2.2 (stakedPrevout st.block)
            (txTime (coinstake st.block) st.block) with
        | error failure =>
          rw [hkernel] at hproof
          rw [herror hproof]
          cases failure with
          | outOfBounds => simp [KernelFail.onKernel]
          | refused failure => cases failure <;> simp [KernelFail.onKernel, KernelFail.toBlockFail]
        | ok hashProofOfStake =>
          rw [hkernel] at hproof
          have hok : blockProofOfStake env stake call st.man pindex st.block =
              .ok hashProofOfStake := hproof
          rw [hbounds, hok, acceptStakeCheck_of_ok hstake hok hpass]
          simp
  · rw [if_pos hhash] at hproof
    rw [herror hproof]
    simp [hhash, KernelFail.toBlockFail]

/-- A block that is stored has passed its stake check. -/
theorem passesStake_of_stored {call : AcceptCall} {st : AcceptState}
    (h : (acceptBlock env rules stake call st).result.toOption.join.isSome = true) :
    PassesStake env rules stake call st := by
  unfold acceptBlock at h
  dsimp only at h
  cases htests : (acceptBlockTests env rules call st).result with
  | error failure =>
    rw [htests] at h
    cases h
  | ok entry =>
    rw [htests] at h
    cases entry with
    | none => cases h
    | some pindex =>
      refine ⟨pindex, htests, ?_⟩
      unfold acceptStakeCheck
      unfold acceptBlockStake at h
      dsimp only at h
      cases hreads : readsOutOfBounds env stake call
          (acceptBlockTests env rules call st).state.man pindex
          (acceptBlockTests env rules call st).state.block with
      | true =>
        rw [hreads] at h
        cases h
      | false =>
        refine ⟨rfl, ?_⟩
        rw [hreads, if_neg (by simp)] at h
        split at h
        · cases h
        · cases h
        · cases h
        · next hcheck => exact ⟨_, hcheck⟩

/-- A block is marked although a node with another transaction index passes it exactly if
the node reads nothing about the staked transaction, or something else than the other
node, with which the check fails. -/
theorem markedByStake_though_passed_iff (call : AcceptCall) (st : AcceptState) (full : TxIndex) :
    MarkedByStake env rules stake call st ∧
        PassesStake env rules stake (call.withIndex (some full)) st ↔
      PassesStake env rules stake (call.withIndex (some full)) st ∧
        st.block.isProofOfStake = true ∧
        (readStaked call.g_txindex st.block = none ∨
          ∃ found, readStaked call.g_txindex st.block = some found ∧
            (readStaked (some full) st.block).map IndexedTx.used ≠ some found.used ∧
            ∃ pindex, (acceptBlockTests env rules call st).result = .ok (some pindex) ∧
              RefusesStaked env stake call pindex (acceptBlockTests env rules call st).state
                found) := by
  obtain ⟨hstake, -⟩ := stakedPrevout_of_content_eq (@acceptBlockTests_state env rules call st).1
  constructor
  · rintro ⟨hmarked, hpasses⟩
    obtain ⟨pindex, htests, hfailed⟩ := id hmarked
    obtain ⟨pindex', htests', -, hcheck'⟩ := id hpasses
    rw [acceptBlockTests_withIndex] at htests' hcheck'
    obtain rfl : pindex = pindex' := by
      rw [htests] at htests'
      simpa using htests'
    have hproof : st.block.isProofOfStake = true := by
      by_contra hnot
      rw [Bool.not_eq_true, ← hstake] at hnot
      have hsame : acceptStakeCheck env stake call pindex
          (acceptBlockTests env rules call st).state =
          acceptStakeCheck env stake (call.withIndex (some full)) pindex
            (acceptBlockTests env rules call st).state :=
        stakeCheck_congr fun hproof => absurd hproof (by rw [hnot]; simp)
      obtain ⟨⟨failure, hcheck⟩, -⟩ := hfailed
      obtain ⟨checked, hcheck'⟩ := hcheck'
      rw [hcheck, hcheck'] at hsame
      cases hsame
    refine ⟨hpasses, hproof, ?_⟩
    cases hread : readStaked call.g_txindex st.block with
    | none => exact .inl rfl
    | some found =>
      have hrefuses := (marks_iff_refusesStaked (hstake.trans hproof)
        (by rw [readStaked_tested, hread]) hcheck').mp (acceptBlockStake_marks_iff.mp hfailed)
      refine .inr ⟨found, rfl, fun hsame => ?_, pindex, htests, hrefuses⟩
      -- then the check of the other node would fail as well
      obtain ⟨found', hread', hused⟩ := Option.map_eq_some_iff.mp hsame
      obtain ⟨hoffset, hfound⟩ := Prod.mk.inj hused
      have hrefuses' : RefusesStaked env stake (call.withIndex (some full)) pindex
          (acceptBlockTests env rules call st).state found' := by
        unfold RefusesStaked at hrefuses ⊢
        rw [hoffset, hfound]
        exact hrefuses
      obtain ⟨-, failure, hcheck, -⟩ := (@marks_iff_refusesStaked env stake
        (call.withIndex (some full)) (acceptBlockTests env rules call st).state pindex (some full)
        found' (hstake.trans hproof) ((readStaked_tested call st (some full)).trans hread')
        hcheck').mpr hrefuses'
      obtain ⟨checked, hcheck'⟩ := hcheck'
      rw [hcheck] at hcheck'
      cases hcheck'
  · rintro ⟨hpasses, hproof, hread⟩
    refine ⟨?_, hpasses⟩
    obtain ⟨pindex, htests, -, hcheck'⟩ := hpasses
    rcases hread with hnone | ⟨found, hfound, -, pindex', htests', hrefuses⟩
    · exact markedByStake_of_none htests hproof hnone
    · rw [acceptBlockTests_withIndex, htests'] at htests
      obtain rfl : pindex' = pindex := by simpa using htests
      exact ⟨pindex', htests', acceptBlockStake_marks_iff.mpr ((marks_iff_refusesStaked
        (hstake.trans hproof) (by rw [readStaked_tested, hfound]) hcheck').mpr hrefuses)⟩

/-- A node without a transaction index marks a block that a complete node passes. -/
theorem SmallNet.marked_without_index : genesisTxIndex.CompleteFor (SmallNet.node false false)
        (fun hash => if hash = genesisHash then some genesisBlock else none)
        (genesisIndex.chainOf genesisEntry) ∧
      PassesStake (SmallNet.node false false) headerRules stakeRules acceptCall
        ⟨genesisMan, mintedBlock 1700001000 (genesisPrevout 0)⟩ ∧
      MarkedByStake (SmallNet.node false false) headerRules stakeRules
        (acceptCall.withIndex none) ⟨genesisMan, mintedBlock 1700001000 (genesisPrevout 0)⟩ := by
  have hpasses : PassesStake (SmallNet.node false false) headerRules stakeRules acceptCall
      ⟨genesisMan, mintedBlock 1700001000 (genesisPrevout 0)⟩ :=
    passesStake_of_stored (by decide +kernel)
  refine ⟨?_, hpasses, ?_⟩
  · intro pindex hpindex
    have hchain : genesisIndex.chainOf genesisEntry = [genesisEntry.toCBlockIndex] := rfl
    rw [hchain, List.mem_singleton] at hpindex
    subst hpindex
    refine ⟨genesisBlock, if_pos rfl, fun tx htx => ?_⟩
    have hvtx : genesisBlock.vtx = [genesisTx] := rfl
    rw [hvtx, List.mem_singleton] at htx
    subst htx
    refine ⟨⟨0, 1⟩, ?_⟩
    have hhash : (SmallNet.node false false).host.hash256 = hash256 := rfl
    unfold TxIndex.readTx genesisTxIndex
    dsimp only
    rw [hhash, if_pos rfl]
    rfl
  · obtain ⟨pindex, htests, -⟩ := hpasses
    rw [← acceptBlockTests_withIndex acceptCall none] at htests
    exact markedByStake_of_none htests (by decide +kernel) rfl

end Patchcoin
