import Patchcoin.Chain.PoolAgreement
import Patchcoin.Consensus.Commitment

/-!
# Variants of a block

A relayed block is known by the hash of its header.  Two accepted blocks with
one header have the same transactions (`Accepted.vtx_eq`); they can differ in
the signature, which `CheckBlock` tests and nothing else looks at, and in the
claims, which nothing commits to.

A block without its claims, or with one more, passes the same checks before
`ConnectBlock`.  There it fails, and the hash that it shares with the valid
block is marked as failed.  The claims are fixed only for a block that carries
none and is too heavy for the smallest one.
-/

namespace Patchcoin

open CBlockIndex Outcome

variable {env : Env} {kernel : Kernel} {ctx : Circumstances} {ancestors : IndexChain}
  {pindex pindex' : CBlockIndex} {block block' : CBlock} {st st' : ConnectState}
variable {claims : List CClaim} {sig : List UInt8}

/-! ## What the transactions are connected with -/

section

variable (hheight : pindex'.nHeight = pindex.nHeight) (htime : pindex'.nTime = pindex.nTime)
include hheight htime

theorem getMedianTimePast_getAncestor_congr (height : ℕ) :
    getMedianTimePast (getAncestor (pindex' :: ancestors) height) =
      getMedianTimePast (getAncestor (pindex :: ancestors) height) := by
  unfold getAncestor
  rw [List.dropWhile_cons, List.dropWhile_cons, hheight]
  split
  · rfl
  · simp only [getMedianTimePast, List.take_succ_cons, List.map_cons, htime]

/-- The loop body reads the height and the time of the entry, the time of the block and
its claims. -/
theorem connectTx_congr (hblock : block'.nTime = block.nTime)
    (hclaims : block'.vClaim = block.vClaim) : connectTx env ctx pindex' ancestors block' =
      connectTx env ctx pindex ancestors block := by
  have htxTime (tx : CTransaction) : txTime tx block' = txTime tx block := by
    simp only [txTime, hblock]
  have hlock : sequenceLock (pindex' :: ancestors) = sequenceLock (pindex :: ancestors) := by
    funext input nCoinHeight lock
    simp only [sequenceLock, getMedianTimePast_getAncestor_congr hheight htime]
  funext tx loop
  simp only [connectTx, connectInputs, connectClaims, connectAmounts, sequenceLocks, connectCoins,
    htxTime, hlock, hheight, htime, hclaims]

end

/-- The states agree in everything that the transactions are connected with. -/
structure SameTransactions (st st' : ConnectState) : Prop where
  g_claims : st'.g_claims = st.g_claims
  view : st'.view = st.view
  hashBlock : st'.pindex.hashBlock = st.pindex.hashBlock
  nHeight : st'.pindex.nHeight = st.pindex.nHeight
  nTime : st'.pindex.nTime = st.pindex.nTime
  header : st'.block.toCBlockHeader = st.block.toCBlockHeader
  vtx : st'.block.vtx = st.block.vtx
  vClaim : st'.block.vClaim = st.block.vClaim

section

variable (h : SameTransactions st st')
include h

theorem SameTransactions.connectLoop_eq :
    connectLoop env ctx ancestors st' = connectLoop env ctx ancestors st := by
  have htime : st'.block.nTime = st.block.nTime := congrArg CBlockHeader.nTime h.header
  unfold connectLoop loopInit
  rw [connectTx_congr h.nHeight h.nTime htime h.vClaim, h.vtx, h.g_claims, h.view]

theorem SameTransactions.getHash_eq :
    st'.block.getHash env.host.hash256 = st.block.getHash env.host.hash256 :=
  congrArg (CBlockHeader.getHash env.host.hash256) h.header

theorem SameTransactions.setGenesisBest :
    SameTransactions (setGenesisBest env false st) (setGenesisBest env false st') := by
  unfold Patchcoin.setGenesisBest
  rw [h.getHash_eq]
  split
  · refine ⟨h.g_claims, ?_, h.hashBlock, h.nHeight, h.nTime, h.header, h.vtx, h.vClaim⟩
    simp only [h.view, h.hashBlock]
  · exact h

/-- The stake checks and `CheckBlock` change nothing that the transactions are connected
with. -/
theorem SameTransactions.staged {next next' : ConnectState}
    (hnext : st.Staged next) (hnext' : st'.Staged next') : SameTransactions next next' := by
  obtain ⟨hheight, htime, -⟩ := fields_of_unstaked_eq hnext.pindex
  obtain ⟨hheight', htime', -⟩ := fields_of_unstaked_eq hnext'.pindex
  have hhash := hashBlock_of_unstaked_eq hnext.pindex
  have hhash' := hashBlock_of_unstaked_eq hnext'.pindex
  constructor
  · rw [hnext.g_claims, hnext'.g_claims, h.g_claims]
  · rw [hnext.view, hnext'.view, h.view]
  · rw [hhash, hhash', h.hashBlock]
  · rw [hheight, hheight', h.nHeight]
  · rw [htime, htime', h.nTime]
  · rw [CBlock.header_eq_of_content_eq hnext.content, CBlock.header_eq_of_content_eq hnext'.content,
      h.header]
  · rw [CBlock.vtx_eq_of_content_eq hnext.content,
      CBlock.vtx_eq_of_content_eq hnext'.content, h.vtx]
  · rw [CBlock.vClaim_eq_of_content_eq hnext.content, CBlock.vClaim_eq_of_content_eq hnext'.content,
      h.vClaim]

theorem SameTransactions.connectTransactions_eq :
    (connectTransactions env ctx ancestors false st').result =
      (connectTransactions env ctx ancestors false st).result := by
  unfold connectTransactions
  dsimp only
  rw [h.connectLoop_eq, h.getHash_eq]
  cases (connectLoop env ctx ancestors st).result with
  | error failure => rfl
  | ok value =>
    cases checkConnectTotals env ancestors
        (st.block.getHash env.host.hash256 == env.params.hashGenesisBlock)
        (connectLoop env ctx ancestors st).state with
    | error failure => rfl
    | ok value =>
      rw [if_neg Bool.false_ne_true, if_neg Bool.false_ne_true, (finishBlock_cases _ _ _).1,
        (finishBlock_cases _ _ _).1]

end

/-! ## Another signature -/

/-- The same state with another object for the block. -/
def ConnectState.setBlock (block : CBlock) (st : ConnectState) : ConnectState := { st with block }

section

variable (hheader : block'.toCBlockHeader = st.block.toCBlockHeader)
    (hvtx : block'.vtx = st.block.vtx)
include hheader hvtx

/-- Of the block itself, the stake checks read the header and the transactions, except
for the entropy bit.  A different bit can make them fail, but not mark the block. -/
theorem peercoinContextualBlockChecks_setBlock
    (hok : (peercoinContextualBlockChecks kernel ancestors false st).result = .ok ()) :
    (peercoinContextualBlockChecks kernel ancestors false (st.setBlock block')).result = .ok () ∨
      (peercoinContextualBlockChecks kernel ancestors false (st.setBlock block')).result =
        .error .silent := by
  have hstake : checkStake kernel ancestors (st.setBlock block') =
      checkStake kernel ancestors st := by
    have hkind : (st.setBlock block').block.isProofOfStake = st.block.isProofOfStake := by
      unfold CBlock.isProofOfStake
      rw [show (st.setBlock block').block.vtx = st.block.vtx from hvtx]
    have hproof : (st.setBlock block').block.getProofOfStake = st.block.getProofOfStake := by
      unfold CBlock.getProofOfStake
      rw [show (st.setBlock block').block.vtx = st.block.vtx from hvtx]
    have hcoinstake : coinstake (st.setBlock block').block = coinstake st.block :=
      congrArg (fun vtx : List CTransaction => vtx.getD 1 ⟨[], [], 0, 0, 0⟩) hvtx
    have hbits : (st.setBlock block').block.nBits = st.block.nBits :=
      congrArg CBlockHeader.nBits hheader
    have htime (tx : CTransaction) : txTime tx (st.setBlock block').block = txTime tx st.block :=
      congrArg (fun header : CBlockHeader =>
        if tx.nTime = 0 then header.nTime else tx.nTime) hheader
    unfold checkStake
    rw [hkind, hproof, hcoinstake, hbits, htime]
    rfl
  rcases @peercoinContextualBlockChecks_cases kernel ancestors (st.setBlock block') with
    ⟨failure, hproof | rfl, hfail⟩ | ⟨_, _, _, _, _, -, -, -, hwrite⟩
  · rw [hstake] at hproof
    rw [peercoinContextualBlockChecks, hproof] at hok
    cases hok
  · rw [hfail]
    exact .inr rfl
  · rw [hwrite]
    exact .inl rfl

theorem connectPrologue_setBlock (hchecked : (checkBlock env true true true block').result = .ok ())
    (hok : (connectPrologue env kernel ancestors false st).result = .ok ()) :
    (connectPrologue env kernel ancestors false (st.setBlock block')).result = .ok () ∨
      (connectPrologue env kernel ancestors false (st.setBlock block')).result =
        .error .silent := by
  have hhash : block'.getHash env.host.hash256 = st.block.getHash env.host.hash256 :=
    congrArg (CBlockHeader.getHash env.host.hash256) hheader
  have hcheck (next : ConnectState) (hnext : next.block = block') :
      (connectCheckBlock env false next).result = .ok () := by
    simp [connectCheckBlock, hnext, hchecked]
  unfold connectPrologue at hok ⊢
  have hentry : (st.setBlock block').pindex = st.pindex := rfl
  have hobject : (st.setBlock block').block = block' := rfl
  rw [hentry, hobject, hhash]
  dsimp only at hok ⊢
  split at hok
  · cases hok
  · rename_i hentryHash
    rw [if_neg hentryHash]
    split at hok
    · cases hok
    · rename_i hstaked
      rw [if_neg hstaked]
      obtain ⟨⟨⟩, hfirst, -⟩ := andThen_eq_ok_iff.mp hok
      split at hfirst
      · rename_i hnew
        rw [if_pos hnew]
        rcases peercoinContextualBlockChecks_setBlock hheader hvtx hfirst with hpass | hsilent
        · left
          rw [andThen_of_ok hpass]
          exact hcheck _ (peercoinContextualBlockChecks_staged _).2
        · right
          rw [andThen_of_error hsilent]
      · rename_i hold
        rw [if_neg hold]
        exact .inl (hcheck _ rfl)

end

theorem connectBlock_setBlock
    (hheader : block'.toCBlockHeader = st.block.toCBlockHeader) (hvtx : block'.vtx = st.block.vtx)
    (hclaims : block'.vClaim = st.block.vClaim)
    (hchecked : (checkBlock env true true true block').result = .ok ())
    (hok : (connectBlock env kernel ctx ancestors false st).result = .ok ()) :
    (connectBlock env kernel ctx ancestors false (st.setBlock block')).result = .ok () ∨
      (connectBlock env kernel ctx ancestors false (st.setBlock block')).result =
        .error .silent := by
  unfold connectBlock at hok ⊢
  obtain ⟨⟨⟩, hprologue, hrest⟩ := andThen_eq_ok_iff.mp hok
  rcases connectPrologue_setBlock hheader hvtx hchecked hprologue with hpass | hsilent
  · left
    have hstart : SameTransactions st (st.setBlock block') :=
      ⟨rfl, rfl, rfl, rfl, rfl, hheader, hvtx, hclaims⟩
    have hsame := hstart.staged (@connectPrologue_staged env kernel ancestors false st)
      (@connectPrologue_staged env kernel ancestors false (st.setBlock block'))
    rw [andThen_of_ok hpass, hsame.view]
    split at hrest
    · cases hrest
    · rename_i hparent
      rw [if_neg hparent, hsame.setGenesisBest.connectTransactions_eq]
      exact hrest
  · right
    rw [andThen_of_error hsilent]

/-! ## Marks of a failed block -/

theorem failedValid_recordBlock (loop : TxLoop) (st : ConnectState) :
    (recordBlock env ancestors loop st).pindex.nStatus.failedValid =
      st.pindex.nStatus.failedValid := by
  have hfold (payouts : List (CScript × ℤ)) (st : ConnectState) :
      (payouts.foldl (recordClaim env ancestors) st).pindex.nStatus = st.pindex.nStatus := by
    induction payouts generalizing st with
    | nil => rfl
    | cons payout rest ih =>
      rw [List.foldl_cons, ih]
      unfold recordClaim
      split <;> rfl
  unfold recordBlock
  rw [hfold]

/-- `ConnectBlock` itself leaves the mark to its caller. -/
theorem failedValid_connectBlock (st : ConnectState) :
    (connectBlock env kernel ctx ancestors false st).state.pindex.nStatus.failedValid =
      st.pindex.nStatus.failedValid := by
  have hstatus {pindex : CBlockIndex} (h : pindex.unstaked = st.pindex.unstaked) :
      pindex.nStatus.failedValid = st.pindex.nStatus.failedValid := by
    have hsame := congrArg (fun entry : CBlockIndex => entry.nStatus.failedValid) h
    exact hsame
  rcases @connectBlock_cases env kernel ctx ancestors false st with
    ⟨-, failure, hfail⟩ | ⟨-, hrun⟩
  · rw [hfail]
    exact hstatus (connectPrologue_staged st).pindex
  · have hstart := hstatus (@unstaked_loopStart env kernel ancestors st)
    rw [hrun]
    rcases @connectTransactions_cases env ctx ancestors false
      (loopStart env kernel ancestors false st) with ⟨-, failure, hfail⟩ | ⟨-, hfinish⟩
    · rw [hfail]
      exact hstart
    · obtain ⟨-, _, _, hfailed, hstate⟩ := finishBlock_cases _ _ _
      rw [hfinish, if_neg Bool.false_ne_true, hstate]
      exact hfailed.trans ((failedValid_recordBlock _ _).trans hstart)

/-- A node that could connect `block` does not mark the entry of the block as failed when
it is given `block'` instead. -/
def HarmlessFor (env : Env) (block block' : CBlock) : Prop :=
  ∀ (kernel : Kernel) (ctx : Circumstances) (flushed : Except BlockFail Unit)
    (pindexNew : CBlockIndex) (chainstate : Chainstate),
    (connectTip env kernel ctx flushed pindexNew block chainstate).result = .ok () →
    pindexNew.nStatus.failedValid = false →
    (connectTip env kernel ctx flushed pindexNew block'
      chainstate).state.2.nStatus.failedValid = false

theorem harmlessFor_of_claims_eq (hheader : block'.toCBlockHeader = block.toCBlockHeader)
    (hvtx : block'.vtx = block.vtx) (hclaims : block'.vClaim = block.vClaim)
    (hchecked : (checkBlock env true true true block').result = .ok ()) :
    HarmlessFor env block block' := by
  intro kernel ctx flushed pindexNew chainstate hok hunmarked
  have hconnected : (connectBlock env kernel ctx chainstate.m_chain false
      (chainstate.connecting pindexNew block)).result = .ok () := by
    unfold connectTip at hok
    dsimp only at hok
    split at hok
    · cases hok
    · assumption
  have hmark := (@failedValid_connectBlock env kernel ctx chainstate.m_chain
    (chainstate.connecting pindexNew block')).trans hunmarked
  have hverdict : (connectBlock env kernel ctx chainstate.m_chain false
      (chainstate.connecting pindexNew block')).result = .ok () ∨
      (connectBlock env kernel ctx chainstate.m_chain false
        (chainstate.connecting pindexNew block')).result = .error .silent :=
    @connectBlock_setBlock env kernel ctx chainstate.m_chain block'
      (chainstate.connecting pindexNew block) hheader hvtx hclaims hchecked hconnected
  unfold connectTip
  dsimp only
  rcases hverdict with hpass | hsilent
  · rw [hpass]
    dsimp only
    split
    · exact hmark
    · exact hmark
  · rw [hsilent]
    exact hmark

/-! ## What the header commits to -/

/-- A block that a peer can send in place of `block`. -/
structure Relayed (env : Env) (ancestors : IndexChain) (check_witness_root : Bool)
    (block block' : CBlock) : Prop where
  header : block'.toCBlockHeader = block.toCBlockHeader
  accepted : Accepted env ancestors check_witness_root block'
  onWire : ∀ tx ∈ block'.vtx, tx.OnWire
  collisionFree : CollisionFree env.host.hash256 block block'

variable {check_witness_root : Bool}

/-- The signature does not cover the claims. -/
theorem signaturePasses_variant :
    SignaturePasses env (block.variant sig claims) ↔ SignaturePasses env (block.variant sig []) :=
  Iff.rfl

/-- A variant with other claims can be sent as soon as it is signed and not too heavy. -/
theorem relayed_variant (hblock : Accepted env ancestors check_witness_root block)
    (hwire : ∀ tx ∈ block.vtx, tx.OnWire) (hfree : CollisionFree env.host.hash256 block block)
    (hsign : SignaturePasses env (block.variant sig claims))
    (hweight : getBlockWeight (block.variant sig claims) ≤ MAX_BLOCK_WEIGHT) :
    Relayed env ancestors check_witness_root block (block.variant sig claims) where
  header := rfl
  accepted := accepted_variant hblock hsign hweight
  onWire := hwire
  collisionFree := ⟨hfree.injective, hfree.leaves, hfree.leaves'⟩

/-- Blocks that agree in everything but the signature and the flags of the object. -/
theorem eq_variant_of_eq (hheader : block'.toCBlockHeader = block.toCBlockHeader)
    (hvtx : block'.vtx = block.vtx) (hfresh : block.Fresh) (hfresh' : block'.Fresh) :
    block' = block.variant block'.vchBlockSig block'.vClaim := by
  obtain ⟨hchecked, hwitness, hroot⟩ := hfresh
  obtain ⟨hchecked', hwitness', hroot'⟩ := hfresh'
  cases block
  cases block'
  simp only at hheader hvtx hchecked hwitness hroot hchecked' hwitness' hroot'
  subst hheader hvtx hchecked hwitness hroot hchecked' hwitness' hroot'
  rfl

/-- Every relayed block has the transactions of the block it stands for.  It has its
claims too, and marks nothing as failed, exactly if the block carries no claims and no
signature leaves room for the smallest one. -/
theorem header_commits_iff (hblock : Accepted env ancestors check_witness_root block)
    (hwire : ∀ tx ∈ block.vtx, tx.OnWire) (hfree : CollisionFree env.host.hash256 block block) :
    (∀ block', Relayed env ancestors check_witness_root block block' → block'.vtx = block.vtx) ∧
    ((∀ block', Relayed env ancestors check_witness_root block block' →
        block'.vClaim = block.vClaim ∧ HarmlessFor env block block') ↔
      block.vClaim = [] ∧ ∀ sig, SignaturePasses env (block.variant sig []) →
        MAX_BLOCK_WEIGHT < getBlockWeight (block.variant sig []) +
          MIN_CLAIM_SIZE * WITNESS_SCALE_FACTOR) := by
  have hvtx : ∀ block', Relayed env ancestors check_witness_root block block' →
      block'.vtx = block.vtx := fun block' h =>
    hblock.vtx_eq h.accepted hwire h.onWire h.collisionFree h.header
  refine ⟨hvtx, ?_, ?_⟩
  · intro hall
    -- the block without its claims is lighter and passes as well
    have hnil : block.vClaim = [] := by
      have hlight : getBlockWeight (block.variant block.vchBlockSig []) ≤ MAX_BLOCK_WEIGHT :=
        (getBlockWeight_variant_nil_le block.vchBlockSig block.vClaim).trans hblock.weight
      have hsign : SignaturePasses env (block.variant block.vchBlockSig block.vClaim) :=
        hblock.signature
      have hrelayed := relayed_variant hblock hwire hfree (signaturePasses_variant.mp hsign) hlight
      exact (hall _ hrelayed).1.symm
    refine ⟨hnil, fun sig hsign => ?_⟩
    by_contra hroom
    have hheavy : getBlockWeight (block.variant sig [minimalClaim]) ≤ MAX_BLOCK_WEIGHT := by
      rw [getBlockWeight_variant_minimalClaim]
      exact not_lt.mp hroom
    have hrelayed := relayed_variant hblock hwire hfree (signaturePasses_variant.mpr hsign) hheavy
    have hclaims : [minimalClaim] = block.vClaim := (hall _ hrelayed).1
    rw [hnil] at hclaims
    exact absurd hclaims (List.cons_ne_nil _ _)
  · rintro ⟨hnil, hfull⟩ block' hrelayed
    have heq := eq_variant_of_eq hrelayed.header (hvtx block' hrelayed) hblock.fresh
      hrelayed.accepted.fresh
    have hclaims : block'.vClaim = [] := by
      by_contra hne
      have hsign : SignaturePasses env (block.variant block'.vchBlockSig []) := by
        have hsigned := hrelayed.accepted.signature
        rw [heq] at hsigned
        exact signaturePasses_variant.mp hsigned
      have hweight : getBlockWeight (block.variant block'.vchBlockSig block'.vClaim) ≤
          MAX_BLOCK_WEIGHT := heq ▸ hrelayed.accepted.weight
      have hroom := @getBlockWeight_variant_of_ne_nil block block'.vchBlockSig _ hne
      have := hfull _ hsign
      omega
    rw [hclaims, hnil]
    refine ⟨rfl, ?_⟩
    exact harmlessFor_of_claims_eq hrelayed.header (hvtx block' hrelayed) (hclaims.trans hnil.symm)
      hrelayed.accepted.checked

namespace SmallNet

theorem accepted_snapshotBlock :
    Accepted (node false false) (genesisChain (node false false)) true snapshotBlock where
  fresh := ⟨rfl, rfl, rfl⟩
  checked := passed_iff.mp (by decide +kernel)
  contextual := passed_iff.mp (by decide +kernel)
  unmutated := by decide +kernel

theorem collisionFree_snapshotBlock :
    CollisionFree (node false false).host.hash256 snapshotBlock snapshotBlock where
  injective := by decide +kernel
  leaves := by decide +kernel
  leaves' := by decide +kernel

theorem onWire_snapshotBlock : ∀ tx ∈ snapshotBlock.vtx, tx.OnWire := by
  intro tx htx _
  have hall : ∀ tx ∈ snapshotBlock.vtx, tx.nTime = 0 := by decide +kernel
  exact hall tx htx

theorem header_commits_snapshotBlock :
    snapshotBlock.vClaim ≠ [] ∧ ∀ block', Relayed (node false false)
      (genesisChain (node false false)) true snapshotBlock block' →
        block'.vtx = snapshotBlock.vtx :=
  ⟨by decide +kernel, (header_commits_iff accepted_snapshotBlock onWire_snapshotBlock
    collisionFree_snapshotBlock).1⟩

/-- The block with another claim passes the same checks.  A node that connects the block
rejects the variant and marks the hash of both. -/
theorem variant_marks_valid_block :
    ∃ block', Relayed (node false false) (genesisChain (node false false)) true snapshotBlock
        block' ∧ block'.vClaim ≠ snapshotBlock.vClaim ∧
      (connectTip (node false false) stakeKernel ordinary (.ok ())
        (second (node false false) snapshotBlock).pindex snapshotBlock
        (chainstate (node false false) [genesisBlock])).result = .ok () ∧
      (connectTip (node false false) stakeKernel ordinary (.ok ())
        (second (node false false) snapshotBlock).pindex block'
        (chainstate (node false false) [genesisBlock])).state.2.nStatus.failedValid = true := by
  refine ⟨snapshotBlock.variant [1] [minimalClaim], ?_, by decide +kernel,
    passed_iff.mp (by decide +kernel), by decide +kernel⟩
  exact relayed_variant accepted_snapshotBlock onWire_snapshotBlock collisionFree_snapshotBlock
    (by decide +kernel) (by decide +kernel)

end SmallNet

end Patchcoin
