import Patchcoin.Chain.Restart

/-!
# The queue of snapshot positions

Before Bitcoin claims open, a coinstake that spends a genesis output may announce positions
of the snapshot in `OP_RETURN` outputs.  `ConnectBlock` records them in the entry of the
block, and refuses positions that an ancestor has recorded.

Every output that announces positions replaces the list, so that the block records the
last announcement only, and nothing at all if it carries no claims (`blockQueue`).  The
comparison with the ancestors says nothing about one list, which may name a position
twice.  Hence the positions along a chain are unique exactly if those of each block are,
and complete exactly if the last announcement of each block contains the others
(`queue_unique_and_complete_iff`).

An `OP_RETURN` output never pays a claim: a claim in the map has a target with an
address (`isOpReturn_getTarget`).
-/

namespace Patchcoin

open List Outcome Claim

variable {env : Env} {kernel : Kernel} {ctx : Circumstances} {ancestors : IndexChain}
  {nTimeTx : UInt32}

/-! ## Announcements -/

/-- The positions that an output announces, if they can be read. -/
def announcement (txout : CTxOut) : Option (List UInt16) :=
  if isOpReturn txout.scriptPubKey then
    match getScriptOp txout.scriptPubKey.bytes with
    | none => none
    | some (_, _, next) =>
      match getScriptOp next with
      | none => none
      | some (_, payload, _) => readQueue payload
  else none

/-- What a transaction announces, before Bitcoin claims open. -/
def announcements (env : Env) (block : CBlock) (tx : CTransaction) : List (List UInt16) :=
  if isBtcAccepted env (txTime tx block) then [] else tx.vout.filterMap announcement

/-- The last announcement of a block with claims. -/
def blockQueue (env : Env) (block : CBlock) : List UInt16 :=
  if block.vClaim = [] then []
  else ((block.vtx.filter fun tx => !tx.isCoinBase).flatMap (announcements env block)).getLastD []

theorem getLastD_append {α : Type*} (first second : List α) (default : α) :
    (first ++ second).getLastD default = second.getLastD (first.getLastD default) := by
  induction first generalizing default with
  | nil => rfl
  | cons head rest ih => rw [cons_append, getLastD_cons, getLastD_cons, ih]

/-! ## Targets are not `OP_RETURN` scripts -/

/-- A script whose first operation is `OP_RETURN` starts with that byte. -/
theorem getD_zero_of_isOpReturn {script : CScript} (h : isOpReturn script = true) :
    script.bytes.getD 0 0 = OP_RETURN := by
  unfold isOpReturn at h
  cases hbytes : script.bytes with
  | nil =>
    rw [hbytes] at h
    exact absurd h (by simp [getScriptOp])
  | cons first pc =>
    rw [hbytes] at h
    cases hop : getScriptOp (first :: pc) with
    | none =>
      rw [hop] at h
      cases h
    | some op =>
      obtain ⟨opcode, data, next⟩ := op
      rw [hop] at h
      rw [getD_cons_zero, ← getScriptOp_opcode hop]
      exact beq_iff_eq.mp h

/-- Such a script has no address. -/
theorem extractDestination_of_isOpReturn {script : CScript} (h : isOpReturn script = true)
    (hash160 : List UInt8 → Uint160) : extractDestination hash160 script = none := by
  have hfirst := getD_zero_of_isOpReturn h
  have hscriptHash : script.isPayToScriptHash = false := by
    unfold CScript.isPayToScriptHash
    rw [hfirst]
    simp [OP_RETURN, OP_HASH160]
  have hwitness : script.isWitnessProgram = none := by
    unfold CScript.isWitnessProgram
    rw [hfirst]
    dsimp only
    split_ifs with hsize hversion
    · rfl
    · rfl
    · exact absurd hversion (by decide)
    · rfl
  have hkey : matchPayToPubkey script = none := by
    have hsized (length : ℕ) (hlength : UInt8.ofNat length ≠ OP_RETURN) :
        matchPayToPubkeySized script length = none := by
      unfold matchPayToPubkeySized
      rw [if_neg]
      rw [hfirst]
      exact fun hmatch => hlength hmatch.2.1.symm
    unfold matchPayToPubkey
    rw [hsized CPubKey.SIZE (by decide), hsized CPubKey.COMPRESSED_SIZE (by decide)]
  have hkeyHash : matchPayToPubkeyHash script = none := by
    unfold matchPayToPubkeyHash
    rw [if_neg]
    rw [hfirst]
    exact fun hmatch => absurd hmatch.2.1 (by decide)
  unfold extractDestination solver
  rw [if_neg (by simp [hscriptHash]), hwitness]
  split_ifs
  · rfl
  · rw [hkey, hkeyHash]
    cases matchMultisig script with
    | none => rfl
    | some keys => rfl

/-- The target of a claim that passes has an address. -/
theorem isOpReturn_getTarget {claim : CClaim}
    (hvalid : ((ofCClaim env claim).isValid env).2 = .OK) :
    isOpReturn claim.target = false := by
  rw [Bool.eq_false_iff]
  intro hreturn
  obtain ⟨-, haddress, -⟩ := ofCClaim_of_init (ClaimPool.m_init_of_isValid hvalid)
  have hempty : env.getAddressFromScript claim.target = "" := by
    unfold Env.getAddressFromScript
    rw [extractDestination_of_isOpReturn hreturn]
  unfold hasEmptyAddress at haddress
  have htarget : (({ m_claim := claim } : Claim).setAddresses env).m_target_address = "" := hempty
  rw [htarget] at haddress
  exact absurd haddress (by simp)

/-- No claim of the map can be paid by an `OP_RETURN` output. -/
def ClaimPool.Addressed (pool : ClaimPool) : Prop :=
  ∀ (key : CScript) (claim : Claim), pool[key]? = some claim → isOpReturn claim.getTarget = false

namespace ClaimPool

variable {pool pool' : ClaimPool} {claim : Claim}

theorem Addressed.of_image_eq (h : pool.Addressed)
    (himage : pool'.image getTarget = pool.image getTarget) : pool'.Addressed := by
  intro key claim hentry
  have htargets := image_eq_iff.mp himage key
  rw [hentry, Option.map_some] at htargets
  obtain ⟨old, hold, htarget⟩ := Option.map_eq_some_iff.mp htargets.symm
  rw [← htarget]
  exact h key old hold

theorem Addressed.attributed (h : pool.Addressed) {script : CScript}
    (hreturn : isOpReturn script = true) : pool.attributed script = none := by
  cases hattributed : pool.attributed script with
  | none => rfl
  | some entry =>
    obtain ⟨key, claim⟩ := entry
    obtain ⟨hentry, htarget⟩ := attributed_some hattributed
    have hnot := h key claim hentry
    rw [htarget, hreturn] at hnot
    cases hnot

theorem Addressed.mergeAll (h : pool.Addressed) {vClaim : List CClaim}
    (hvalid : ∀ claim ∈ vClaim, (checkedClaim env claim).2 = .OK) :
    (pool.mergeAll env vClaim).Addressed := by
  induction vClaim generalizing pool with
  | nil => exact h
  | cons claim rest ih =>
    rw [mergeAll_cons]
    refine ih ?_ fun other hother => hvalid other (.tail _ hother)
    unfold merge
    split_ifs
    · intro key entry hentry
      rw [Std.ExtTreeMap.getElem?_insert] at hentry
      split_ifs at hentry
      · rw [← Option.some.inj hentry, checkedClaim, getTarget_isValid, getTarget,
          m_claim_ofCClaim]
        exact isOpReturn_getTarget (hvalid claim mem_cons_self)
      · exact h key entry hentry
    · exact h

/-- A map of admitted claims is such a map. -/
theorem addressed_of_admitted
    (h : ∀ (key : CScript) (claim : Claim), pool[key]? = some claim → claim.Admitted env) :
    pool.Addressed := fun key claim hentry => isOpReturn_getTarget (h key claim hentry).valid

end ClaimPool

/-! ## The loops -/

/-- An `OP_RETURN` output replaces the list by what it announces. -/
theorem queue_checkOpReturn {txout : CTxOut} {queue queue' : List UInt16}
    (hreturn : isOpReturn txout.scriptPubKey = true)
    (h : checkOpReturn env ancestors nTimeTx txout queue = .ok queue') :
    queue' = if isBtcAccepted env nTimeTx then queue else (announcement txout).getD queue := by
  unfold checkOpReturn at h
  by_cases hvalue : txout.nValue ≠ 0
  · rw [if_pos hvalue] at h
    exact absurd h (by simp [txConsensus])
  rw [if_neg hvalue] at h
  by_cases hopen : isBtcAccepted env nTimeTx = true
  · rw [if_pos hopen] at h ⊢
    exact (Except.ok.inj h).symm
  rw [if_neg hopen] at h ⊢
  unfold announcement
  rw [if_pos hreturn]
  cases hop : getScriptOp txout.scriptPubKey.bytes with
  | none =>
    rw [hop] at h
    exact absurd h (by simp [txConsensus])
  | some first =>
    rw [hop] at h
    dsimp only at h ⊢
    cases hpayload : getScriptOp first.2.2 with
    | none =>
      rw [hpayload] at h
      exact absurd h (by simp [txConsensus])
    | some second =>
      rw [hpayload] at h
      dsimp only at h ⊢
      cases hread : readQueue second.2.1 with
      | none =>
        rw [hread] at h
        cases h
      | some announced =>
        rw [hread] at h
        dsimp only at h
        split_ifs at h
        · exact absurd h (by simp [txConsensus])
        · exact (Except.ok.inj h).symm

/-- An output without a claim that announces nothing leaves the list. -/
theorem queue_checkOtherOutput {txout : CTxOut} {queue queue' : List UInt16}
    (h : checkOtherOutput env ancestors nTimeTx txout queue = .ok queue') :
    queue' = if isBtcAccepted env nTimeTx then queue else (announcement txout).getD queue := by
  unfold checkOtherOutput at h
  split_ifs at h with hformat hreturn
  · exact absurd h (by simp [txConsensus])
  · exact queue_checkOpReturn hreturn h
  · have hnone : announcement txout = none := by
      unfold announcement
      rw [if_neg hreturn]
    rw [hnone, Option.getD_none, ite_self]
    exact (Except.ok.inj h).symm

/-- The output loop leaves the last announcement. -/
theorem queue_checkClaimOutputs {vout : List CTxOut} {loop : OutputLoop}
    (hpool : loop.g_claims.Addressed)
    (hok : (forEach (checkClaimOutput env ancestors nTimeTx) vout loop).result = .ok ()) :
    (forEach (checkClaimOutput env ancestors nTimeTx) vout loop).state.queued_claims =
      if isBtcAccepted env nTimeTx then loop.queued_claims
      else (vout.filterMap announcement).getLastD loop.queued_claims := by
  induction vout generalizing loop with
  | nil => simp
  | cons txout rest ih =>
    obtain ⟨hfirst, hrest⟩ := forEach_cons_eq_ok_iff.mp hok
    have hpool' : (checkClaimOutput env ancestors nTimeTx txout loop).state.g_claims.Addressed :=
      hpool.of_image_eq (image_checkClaimOutput getTarget_isValid txout loop)
    -- what this output does to the list
    have hstep : (checkClaimOutput env ancestors nTimeTx txout loop).state.queued_claims =
        if isBtcAccepted env nTimeTx then loop.queued_claims
        else (announcement txout).getD loop.queued_claims := by
      rcases checkClaimOutput_of_ok hfirst with
        ⟨-, queue, hother, hstate⟩ | ⟨key, claim, count, hattributed, -, -, -, hstate⟩
      · rw [hstate]
        exact queue_checkOtherOutput hother
      · have hnone : announcement txout = none := by
          unfold announcement
          rw [if_neg]
          intro hreturn
          rw [hpool.attributed hreturn] at hattributed
          cases hattributed
        rw [hstate, hnone, Option.getD_none, ite_self]
    rw [state_forEach_cons_of_ok hfirst, ih hpool' hrest, hstep]
    split_ifs
    · rfl
    · cases hannounced : announcement txout with
      | none => rw [filterMap_cons_none hannounced, Option.getD_none]
      | some queue =>
        rw [filterMap_cons_some hannounced, getLastD_cons, Option.getD_some]

/-- What `CheckClaims` leaves in the list, on a block with claims. -/
theorem queue_checkClaims {view : CCoinsView} {tx : CTransaction} {vClaim : List CClaim}
    {st : ClaimState} (hpool : st.g_claims.Addressed) (hne : vClaim ≠ [])
    (hok : (checkClaims env ancestors view tx nTimeTx vClaim st).result = .ok ()) :
    (checkClaims env ancestors view tx nTimeTx vClaim st).state.g_claims.Addressed ∧
      (checkClaims env ancestors view tx nTimeTx vClaim st).state.queued_claims =
        if isBtcAccepted env nTimeTx then st.queued_claims
        else (tx.vout.filterMap announcement).getLastD st.queued_claims := by
  obtain ⟨-, hmerged, houtputs⟩ := (checkClaims_ok_iff hne).mp hok
  have hvalid (claim : CClaim) (hmem : claim ∈ vClaim) : (checkedClaim env claim).2 = .OK :=
    (blockClaimVerdict_eq_ok_iff.mp (insertBlockClaims_ok_iff.mp hmerged claim hmem)).1
  have hpool' := hpool.mergeAll hvalid
  rw [state_checkClaims_of_ok hne hok]
  refine ⟨hpool'.of_image_eq (image_checkClaimOutputs getTarget_isValid _ _), ?_⟩
  exact queue_checkClaimOutputs hpool' houtputs

section Transactions

variable {pindex : CBlockIndex} {block : CBlock} {loop : TxLoop}

/-- A transaction of a block with claims leaves the last announcement it makes. -/
theorem queue_connectTx {tx : CTransaction} (hpool : loop.g_claims.Addressed)
    (hne : block.vClaim ≠ [])
    (hok : (connectTx env ctx pindex ancestors block tx loop).result = .ok ()) :
    (connectTx env ctx pindex ancestors block tx loop).state.g_claims.Addressed ∧
      (connectTx env ctx pindex ancestors block tx loop).state.queued_claims =
        if tx.isCoinBase then loop.queued_claims
        else (announcements env block tx).getLastD loop.queued_claims := by
  rw [toClaimState_connectTx]
  unfold claimsAfter
  split_ifs with hcoinbase
  · exact ⟨hpool, rfl⟩
  · obtain ⟨-, -, htests⟩ := connectTx_of_ok hok
    obtain ⟨⟨txfee, hinputs⟩, hclaims⟩ := htests (Bool.not_eq_true _ ▸ hcoinbase)
    rw [hinputs]
    obtain ⟨hpool', hqueue⟩ := queue_checkClaims hpool hne hclaims
    refine ⟨hpool', hqueue.trans ?_⟩
    unfold announcements
    split_ifs <;> rfl

/-- The transaction loop of a block with claims. -/
theorem queue_connectTxs {txs : List CTransaction} (hpool : loop.g_claims.Addressed)
    (hne : block.vClaim ≠ []) (hok : (forEach (connectTx env ctx pindex ancestors block) txs
      loop).result = .ok ()) :
    (forEach (connectTx env ctx pindex ancestors block) txs
        loop).state.queued_claims =
      ((txs.filter fun tx => !tx.isCoinBase).flatMap (announcements env block)).getLastD
        loop.queued_claims := by
  induction txs generalizing loop with
  | nil => rfl
  | cons tx rest ih =>
    obtain ⟨hfirst, hrest⟩ := forEach_cons_eq_ok_iff.mp hok
    obtain ⟨hpool', hqueue⟩ := queue_connectTx hpool hne hfirst
    rw [state_forEach_cons_of_ok hfirst, ih hpool' hrest, hqueue, filter_cons]
    cases tx.isCoinBase with
    | true => rfl
    | false => exact (getLastD_append _ _ _).symm

/-- In a block without claims nothing is read. -/
theorem queue_connectTxs_nil {txs : List CTransaction} (hnil : block.vClaim = []) :
    (forEach (connectTx env ctx pindex ancestors block) txs
      loop).state.queued_claims = loop.queued_claims := by
  refine connectTxs_claims (P := fun claims => claims.queued_claims = loop.queued_claims) ?_ rfl
  intro tx view claims hclaims
  rw [hnil, checkClaims_nil]
  exact hclaims

end Transactions

/-! ## Blocks -/

section Blocks

variable {st : ConnectState}

theorem blockQueue_of_content_eq {block block' : CBlock} (h : block'.content = block.content) :
    blockQueue env block' = blockQueue env block := by
  have htime (tx : CTransaction) : announcements env block' tx = announcements env block tx := by
    unfold announcements txTime
    rw [CBlock.header_eq_of_content_eq h]
  unfold blockQueue
  rw [CBlock.vClaim_eq_of_content_eq h, CBlock.vtx_eq_of_content_eq h, funext htime]

theorem not_alreadyQueued_of_totals {isGenesis : Bool} {loop : TxLoop}
    (h : checkConnectTotals env ancestors isGenesis loop = .ok ()) :
    alreadyQueued ancestors loop.queued_claims = false := by
  unfold checkConnectTotals at h
  cases hqueued : alreadyQueued ancestors loop.queued_claims with
  | false => rfl
  | true =>
    rw [hqueued, if_pos (show true = true from rfl)] at h
    split_ifs at h
    all_goals exact absurd h (by simp [blockConsensus])

/-- What `ConnectBlock` records, and that no ancestor has recorded any of it. -/
theorem queue_connectBlock (hpool : st.g_claims.Addressed)
    (hok : (connectBlock env kernel ctx ancestors false st).result = .ok ()) :
    (connectBlock env kernel ctx ancestors false st).state.pindex.queuedClaims =
        blockQueue env st.block ∧
      alreadyQueued ancestors (blockQueue env st.block) = false := by
  obtain ⟨-, -, hfinished⟩ := connectBlock_of_ok hok
  let start := loopStart env kernel ancestors false st
  have hblock : blockQueue env start.block = blockQueue env st.block :=
    blockQueue_of_content_eq (content_loopStart st)
  have hpool' : start.g_claims.Addressed := by
    rw [(sameClaims_loopStart st).g_claims]
    exact hpool
  -- the list at the end of the transaction loop
  have hloop : (connectLoop env ctx ancestors start).state.queued_claims =
      blockQueue env st.block := by
    rw [← hblock]
    unfold blockQueue
    split_ifs with hnil
    · exact queue_connectTxs_nil hnil
    · exact queue_connectTxs hpool' hnil hfinished.loop
  constructor
  · obtain ⟨nClaims, nStatus, hentry⟩ := hfinished.pindex_eq
    rw [hentry]
    exact hloop
  · rw [← hloop]
    exact not_alreadyQueued_of_totals hfinished.totals

end Blocks

/-! ## Chains -/

/-- A chain of connected blocks, the last one first, and the states in which they were
connected.  The claims that a node has in its map were admitted. -/
inductive QueuedChain (env : Env) (kernel : Kernel) : List ConnectState → IndexChain → Prop
  | nil : QueuedChain env kernel [] []
  | connect {starts : List ConnectState} {ancestors : IndexChain} {ctx : Circumstances}
      {st : ConnectState} (hchain : QueuedChain env kernel starts ancestors)
      (hpool : ∀ (source : CScript) (claim : Claim), st.g_claims[source]? = some claim →
        claim.Admitted env)
      (hok : (connectBlock env kernel ctx ancestors false st).result = .ok ()) :
      QueuedChain env kernel (st :: starts)
        ((connectBlock env kernel ctx ancestors false st).state.pindex :: ancestors)

/-- The list has every position that a coinstake of the block announces, if it spends a coin of
the genesis key and Bitcoin claims are not open yet. -/
def CoversAnnounced (env : Env) (st : ConnectState) (queue : List UInt16) : Prop :=
  ∀ entry ∈ blockViews env st.pindex st.view st.block.vtx, entry.1.isCoinStake = true →
    spendsGenesisKey env entry.2 entry.1 = true →
    ∀ announced ∈ announcements env st.block entry.1, ∀ claim_pos ∈ announced, claim_pos ∈ queue

/-- The test of `CoversAnnounced`. -/
def coversAnnounced (env : Env) (st : ConnectState) (queue : List UInt16) : Bool :=
  (blockViews env st.pindex st.view st.block.vtx).all fun entry =>
    !entry.1.isCoinStake || !spendsGenesisKey env entry.2 entry.1 ||
      (announcements env st.block entry.1).all fun announced => announced.all queue.contains

theorem coversAnnounced_iff {st : ConnectState} {queue : List UInt16} :
    coversAnnounced env st queue = true ↔ CoversAnnounced env st queue := by
  unfold coversAnnounced CoversAnnounced
  rw [all_eq_true]
  refine forall₂_congr fun entry _ => ?_
  cases entry.1.isCoinStake <;> cases spendsGenesisKey env entry.2 entry.1 <;> simp

instance (st : ConnectState) (queue : List UInt16) : Decidable (CoversAnnounced env st queue) :=
  decidable_of_iff _ coversAnnounced_iff

theorem QueuedChain.recorded {starts : List ConnectState} {chain : IndexChain}
    (h : QueuedChain env kernel starts chain) :
    List.Forall₂ (fun st pindex => pindex.queuedClaims = blockQueue env st.block) starts chain := by
  induction h with
  | nil => exact .nil
  | connect _ hpool hok ih =>
    exact .cons (queue_connectBlock (ClaimPool.addressed_of_admitted hpool) hok).1 ih

/-- Different blocks of a chain have different positions. -/
theorem QueuedChain.disjoint {starts : List ConnectState} {chain : IndexChain}
    (h : QueuedChain env kernel starts chain) :
    chain.Pairwise fun pindex pindex' => pindex.queuedClaims.Disjoint pindex'.queuedClaims := by
  induction h with
  | nil => exact .nil
  | @connect starts ancestors ctx st _ hpool hok ih =>
    obtain ⟨hqueue, hfresh⟩ := queue_connectBlock (ClaimPool.addressed_of_admitted hpool) hok
    refine pairwise_cons.mpr ⟨fun pindex hmem claim_pos hnew hold => ?_, ih⟩
    rw [hqueue] at hnew
    -- the test of the totals would have failed
    have hqueued : alreadyQueued ancestors (blockQueue env st.block) = true := by
      refine any_eq_true.mpr ⟨pindex, hmem, any_eq_true.mpr ⟨claim_pos, hnew, ?_⟩⟩
      exact contains_iff_mem.mpr hold
    rw [hfresh] at hqueued
    cases hqueued

/-- The positions along a chain are unique, and each block has those that its coinstake
announces, exactly if the last announcement of each block names no position twice and
contains what the others announce; in a block without claims nothing may be announced. -/
theorem queue_unique_and_complete_iff {starts : List ConnectState} {chain : IndexChain}
    (h : QueuedChain env kernel starts chain) : (chain.flatMap CBlockIndex.queuedClaims).Nodup ∧
        List.Forall₂ (fun st pindex => CoversAnnounced env st pindex.queuedClaims) starts chain ↔
      ∀ st ∈ starts, (blockQueue env st.block).Nodup ∧
        CoversAnnounced env st (blockQueue env st.block) := by
  have hrecorded := h.recorded
  rw [List.nodup_flatMap, and_iff_left h.disjoint]
  clear h
  induction hrecorded with
  | nil => simp
  | cons hqueue _ ih =>
    rw [List.forall_mem_cons, List.forall_mem_cons, List.forall₂_cons, hqueue]
    exact and_and_and_comm.trans (and_congr_right fun _ => ih)

namespace SmallNet

/-- The states in which blocks are connected, the last one first. -/
def starts (env : Env) : List CBlock → List ConnectState
  | [] => []
  | block :: rest => onTop (reach env rest).1 (reach env rest).2.length block :: starts env rest

theorem admitted_reach (blocks : List CBlock) :
    ∀ (source : CScript) (claim : Claim), (reach env blocks).1.g_claims[source]? = some claim →
      claim.Admitted env := by
  induction blocks with
  | nil => exact fun source claim hentry => absurd hentry (by simp [reach, blank])
  | cons block rest ih => exact admitted_connectBlock ih

theorem queuedChain_reach {blocks : List CBlock} (haccepts : accepts env blocks = true) :
    QueuedChain env stakeKernel (starts env blocks) (reach env blocks).2 := by
  induction blocks with
  | nil => exact .nil
  | cons block rest ih =>
    obtain ⟨hrest, hpassed⟩ := Bool.and_eq_true_iff.mp haccepts
    exact .connect (ih hrest) (admitted_reach rest) (passed_iff.mp hpassed)

/-- An output that announces the position zero a number of times. -/
def announceZero (times : ℕ) : CTxOut :=
  let payload := UInt8.ofNat times :: List.replicate (2 * times) 0
  ⟨0, ⟨OP_RETURN :: UInt8.ofNat payload.length :: payload⟩⟩

/-- A block that pays a claim and makes announcements. -/
def queueBlock (announced : List ℕ) : CBlock :=
  payBlock 1 genesisHash 1700000500 0 99990000000
    (⟨10000000, payToKeyHash 2⟩ :: announced.map announceZero)
    [mkClaim (payToKeyHash 1) (payToKeyHash 2)]

def queueBlocks (announced : List ℕ) : List CBlock := [queueBlock announced, genesisBlock]

/-- A position that is announced once is queued once. -/
theorem announced_once :
    ((reach (node false false) (queueBlocks [1])).2.flatMap CBlockIndex.queuedClaims).Nodup ∧
      List.Forall₂ (fun st pindex => CoversAnnounced (node false false) st pindex.queuedClaims)
        (starts (node false false) (queueBlocks [1]))
        (reach (node false false) (queueBlocks [1])).2 := by
  refine (queue_unique_and_complete_iff (queuedChain_reach (by decide +kernel))).mpr ?_
  have hqueue : blockQueue (node false false) (queueBlock [1]) = [0] := by decide +kernel
  have hgenesis : blockQueue (node false false) genesisBlock = [] := rfl
  refine List.forall_mem_cons.mpr ⟨?_, List.forall_mem_cons.mpr ⟨?_, by simp [starts]⟩⟩
  · rw [block_onTop, hqueue]
    exact ⟨by decide, by decide +kernel⟩
  · rw [block_onTop, hgenesis]
    exact ⟨by decide, by decide +kernel⟩

/-- A position that one output announces twice is queued twice, and one that is announced before
an empty announcement is lost. -/
theorem announced_twice_or_lost :
    QueuedChain (node false false) stakeKernel (starts (node false false) (queueBlocks [2]))
        (reach (node false false) (queueBlocks [2])).2 ∧
      (reach (node false false) (queueBlocks [2])).2.flatMap CBlockIndex.queuedClaims = [0, 0] ∧
      QueuedChain (node false false) stakeKernel (starts (node false false) (queueBlocks [1, 0]))
        (reach (node false false) (queueBlocks [1, 0])).2 ∧
      ¬ List.Forall₂ (fun st pindex => CoversAnnounced (node false false) st pindex.queuedClaims)
        (starts (node false false) (queueBlocks [1, 0]))
        (reach (node false false) (queueBlocks [1, 0])).2 := by
  refine ⟨queuedChain_reach (by decide +kernel), by decide +kernel,
    queuedChain_reach (by decide +kernel), fun hcovers => ?_⟩
  have hlast := (List.forall₂_cons.mp hcovers).1
  exact absurd hlast (by decide +kernel)

end SmallNet

end Patchcoin
