import Patchcoin.Lib.Growth
import Patchcoin.Lib.Run
import Patchcoin.Stake.Alike
import Patchcoin.Stake.Incomplete

/-!
# The order in which blocks arrive

A node receives blocks, parents before children, and is restarted now and then, which
empties the set of stakes it has seen.  The question is whether the blocks that it marks
as failed depend on the order.

## Strategy

`BlockMap.judgedEntry` is the verdict on a block that looks at nothing but its ancestors:
no stakes were seen and there is no active chain.  If no two blocks of the run clash, and
every kernel is of protocol version 0.5 or from before version 0.3, the node judges every
block that way (`StakeNode.index_accept`), so that its block index is filled as in
`Growth.fill`.  The verdict is local in the sense of that library, because the ancestors
of a valid block do not change any more (`BlockMap.walk_within`).

Clashes are the obstacle.  Two blocks of one stake, of which the second is refused, change
their roles with the order; after a restart neither is refused.
-/

namespace Patchcoin

open Growth (Within)

/-! ## The verdict on a block by its ancestors -/

/-- The entry that a block gets after its check. -/
def IndexEntry.afterCheck (entry : IndexEntry)
    (checked : Except BlockFail (CBlockIndex × List (COutPoint × UInt32))) : IndexEntry :=
  match checked with
  | .error _ => entry.failed
  | .ok (pindex, _) => entry.accepted pindex

namespace BlockMap

section

variable (env : Env) (stake : StakeRules)

/-- The stake functions of a node that knows nothing but the ancestors of a block, which the
next modifier looks up, and the staked transaction. -/
def bareKernel (lookup : Uint256 → Option CBlockIndex) (found : Option IndexedTx) : Kernel :=
  { stakeKernel env stake ⟨fun _ => none, []⟩ (found.map TxIndex.constant) fun _ => 0 with
    computeNextStakeModifier := computeNextStakeModifier env stake (fun _ => 0) lookup }

/-- The stake check of a block on such a node, if it has seen no stake. -/
def judge (found : Option IndexedTx) (index : BlockMap) (block : CBlock) (parent : IndexEntry) :
    Except BlockFail (CBlockIndex × List (COutPoint × UInt32)) :=
  let pindexNew := index.newEntry env.host.hash256 block.toCBlockHeader
  stakeCheck (bareKernel env stake (index.insert pindexNew).lookup found) (index.chainOf parent) []
    pindexNew.toCBlockIndex block

/-- The entry of a block that is judged by its ancestors, if its parent is valid. -/
def judgedEntry (reads : CBlock → Option IndexedTx) (block : CBlock) (index : BlockMap) :
    Option IndexEntry :=
  ((index block.hashPrevBlock).filter fun parent => parent.isValid BLOCK_VALID_TRANSACTIONS).map
    fun parent => (index.newEntry env.host.hash256 block.toCBlockHeader).afterCheck
      (index.judge env stake (reads block) block parent)

end

variable {index index' whole : BlockMap}

/-- The walk from a valid entry is the same in every larger map. -/
theorem walk_within (hwithin : Within index whole) (hrooted : index.Rooted) :
    ∀ (count : ℕ) (hash : Uint256), index.ValidAt hash →
      index.walk count hash = whole.walk count hash := by
  intro count
  induction count with
  | zero => intro hash _; rfl
  | succ count ih =>
    rintro hash ⟨entry, hentry, hvalid⟩
    simp only [walk, hentry, hwithin hash entry hentry]
    cases hprev : entry.pprev with
    | none => rfl
    | some prev => simp only [ih prev (hrooted hash entry hentry hvalid prev hprev)]

theorem chainOf_within (hwithin : Within index whole) (hrooted : index.Rooted) {hash : Uint256}
    {entry : IndexEntry} (hentry : index hash = some entry)
    (hvalid : entry.isValid BLOCK_VALID_TRANSACTIONS = true) :
    index.chainOf entry = whole.chainOf entry := by
  unfold chainOf ancestors
  cases hprev : entry.pprev with
  | none => rfl
  | some prev =>
    simp only [walk_within hwithin hrooted _ prev (hrooted hash entry hentry hvalid prev hprev)]

theorem ValidAt.eq_within {hash : Uint256} (h : index.ValidAt hash) (hwithin : Within index whole) :
    index hash = whole hash := by
  obtain ⟨entry, hentry, -⟩ := h
  rw [hentry, hwithin hash entry hentry]

/-- Entries that are found the same are found the same after an insertion. -/
theorem lookupsAlike_insert {hash : Uint256} (h : index hash = index' hash) (entry : IndexEntry) :
    LookupsAlike (index.insert entry).lookup (index'.insert entry).lookup hash := by
  have hsame : index.insert entry hash = index'.insert entry hash := by
    by_cases heq : hash = entry.hashBlock
    · rw [heq, insert_self, insert_self]
    · rw [insert_of_ne index heq, insert_of_ne index' heq, h]
  unfold LookupsAlike lookup
  rw [hsame]

end BlockMap

variable {env : Env} {stake : StakeRules}

/-- A kernel that does not read the active chain. -/
def ChainFree (env : Env) (nTimeTx : UInt32) : Prop :=
  isProtocolV03 env.params nTimeTx.toNat = true → isProtocolV05 env.params nTimeTx.toNat = true

theorem checkProofOfStake_chainFree {view view' : StakeView} {g_txindex : Option TxIndex}
    {ancestors : IndexChain} {tx : CTransaction} {nBits nTimeTx : UInt32}
    (h : ChainFree env nTimeTx) :
    checkProofOfStake env stake view g_txindex ancestors tx nBits nTimeTx =
      checkProofOfStake env stake view' g_txindex ancestors tx nBits nTimeTx := by
  have hsalt : ∀ ancestors hashBlockFrom,
      kernelSalt env stake view nBits ancestors hashBlockFrom nTimeTx =
        kernelSalt env stake view' nBits ancestors hashBlockFrom nTimeTx := by
    intro ancestors hashBlockFrom
    unfold kernelSalt
    by_cases hv03 : isProtocolV03 env.params nTimeTx.toNat = true
    · rw [if_pos hv03, if_pos hv03, getKernelStakeModifier, getKernelStakeModifier,
        if_pos (h hv03), if_pos (h hv03)]
    · rw [if_neg hv03, if_neg hv03]
  simp only [checkProofOfStake, checkStakedTx, checkStakeKernelHash, hsalt]

/-- Kernels that agree on the proof of stake and the next modifier of a block leave the
same entry behind. -/
theorem afterCheck_congr {kernel : Kernel} {ancestors : IndexChain}
    {seen seen' : List (COutPoint × UInt32)} {pindex : CBlockIndex} {block : CBlock}
    (entry : IndexEntry) (kernel' : Kernel) (hbit : ∀ block, kernel.getStakeEntropyBit block ≤ 1)
    (hcheck : checkStake kernel ancestors (stakeState seen pindex block) =
      checkStake kernel' ancestors (stakeState seen' pindex block))
    (hnext : kernel.computeNextStakeModifier pindex ancestors =
      kernel'.computeNextStakeModifier pindex ancestors) :
    entry.afterCheck (stakeCheck kernel ancestors seen pindex block) =
      entry.afterCheck (stakeCheck { kernel with
        checkProofOfStake := kernel'.checkProofOfStake
        computeNextStakeModifier := kernel'.computeNextStakeModifier } ancestors seen' pindex
        block) := by
  have hverdict : stakeVerdict kernel ancestors seen pindex block =
      stakeVerdict { kernel with
        checkProofOfStake := kernel'.checkProofOfStake
        computeNextStakeModifier := kernel'.computeNextStakeModifier } ancestors seen' pindex
        block := by
    unfold stakeVerdict
    rw [hcheck, hnext]
    rfl
  rw [stakeCheck_eq hbit, stakeCheck_eq (by exact hbit), ← hverdict]
  cases stakeVerdict kernel ancestors seen pindex block with
  | error failure => rfl
  | ok found =>
    -- both sides take the same branch, and the stakes seen are not part of the entry
    have hbranch : ∀ (passes : Bool) (pindex : CBlockIndex)
        (seen seen' : List (COutPoint × UInt32)),
        entry.afterCheck (if passes then .ok (pindex, seen) else .error .silent) =
          entry.afterCheck (if passes then .ok (pindex, seen') else .error .silent) := by
      intro passes pindex seen seen'
      cases passes <;> rfl
    exact hbranch ..

/-- The block is judged by its ancestors, if its stake was not seen and its kernel does not
read the active chain. -/
theorem afterCheck_bare {view : StakeView} {g_txindex : Option TxIndex} {rand : ℕ → ℕ}
    {ancestors : IndexChain} {seen : List (COutPoint × UInt32)} {pindex : CBlockIndex}
    {block : CBlock} (entry : IndexEntry)
    (hfree : block.isProofOfStake = true → ChainFree env (txTime (coinstake block) block))
    (hseen : block.isProofOfStake = true → block.getProofOfStake ∉ seen) :
    entry.afterCheck (stakeCheck (stakeKernel env stake view g_txindex rand) ancestors seen pindex
        block) =
      entry.afterCheck (stakeCheck (BlockMap.bareKernel env stake view.lookup
        (readStaked g_txindex block)) ancestors [] pindex block) := by
  refine afterCheck_congr entry (BlockMap.bareKernel env stake view.lookup
    (readStaked g_txindex block)) (getStakeEntropyBit_le_one env) ?_
    (computeNextStakeModifier_rand env stake rand _ view.lookup pindex ancestors)
  have hread : readStaked g_txindex block =
      readStaked ((readStaked g_txindex block).map TxIndex.constant) block := by
    cases readStaked g_txindex block with
    | none => rfl
    | some found => rfl
  unfold checkStake
  dsimp only [stakeState]
  by_cases hstake : block.isProofOfStake = true
  · have hproof : checkProofOfStake env stake view g_txindex ancestors
          (coinstake block) block.nBits (txTime (coinstake block) block) =
        checkProofOfStake env stake ⟨fun _ => none, []⟩
          ((readStaked g_txindex block).map TxIndex.constant) ancestors (coinstake block)
          block.nBits (txTime (coinstake block) block) := by
      rw [checkProofOfStake_congr hread, checkProofOfStake_chainFree (hfree hstake)]
    have hnotSeen : seen.contains block.getProofOfStake = ([] : List _).contains
        block.getProofOfStake := by
      rw [List.contains_nil, List.contains_eq_mem, decide_eq_false (hseen hstake)]
    simp only [stakeKernel, BlockMap.bareKernel, hproof, hnotSeen]
    rfl
  · simp only [hstake, Bool.not_false, if_true]

/-- Maps that agree on the ancestors judge alike. -/
theorem afterCheck_bare_congr {lookup lookup' : Uint256 → Option CBlockIndex}
    {found : Option IndexedTx} {ancestors : IndexChain} {seen : List (COutPoint × UInt32)}
    {pindex : CBlockIndex} {block : CBlock} (entry : IndexEntry)
    (h : ∀ ancestor ∈ ancestors, LookupsAlike lookup lookup' ancestor.hashBlock) :
    entry.afterCheck (stakeCheck (BlockMap.bareKernel env stake lookup found) ancestors seen pindex
        block) =
      entry.afterCheck (stakeCheck (BlockMap.bareKernel env stake lookup' found) ancestors seen
        pindex block) := by
  have hproof : (BlockMap.bareKernel env stake lookup found).checkProofOfStake =
      (BlockMap.bareKernel env stake lookup' found).checkProofOfStake := rfl
  refine afterCheck_congr entry (BlockMap.bareKernel env stake lookup' found)
    (getStakeEntropyBit_le_one env) ?_ ?_
  · unfold checkStake
    rw [hproof]
  · exact computeNextStakeModifier_alike env stake rfl h rfl _ _

/-- The check keeps the hash of the entry. -/
theorem hashBlock_afterCheck {kernel : Kernel} {ancestors : IndexChain}
    {seen : List (COutPoint × UInt32)} {entry : IndexEntry} {block : CBlock}
    (hbit : ∀ block, kernel.getStakeEntropyBit block ≤ 1) :
    (entry.afterCheck (stakeCheck kernel ancestors seen entry.toCBlockIndex block)).hashBlock =
      entry.hashBlock := by
  rw [stakeCheck_eq hbit]
  cases stakeVerdict kernel ancestors seen entry.toCBlockIndex block with
  | error failure => rfl
  | ok found =>
    dsimp only
    split
    · exact IndexEntry.hashBlock_accepted ..
    · rfl

theorem pprev_afterCheck (entry : IndexEntry)
    (checked : Except BlockFail (CBlockIndex × List (COutPoint × UInt32))) :
    (entry.afterCheck checked).pprev = entry.pprev := by
  cases checked with
  | error failure => rfl
  | ok checked => rfl

/-! ## The verdict is local -/

namespace BlockMap

/-- The maps that nodes have. -/
structure Sound (index : BlockMap) : Prop where
  keyed : index.Keyed
  rooted : index.Rooted

variable {index index' whole : BlockMap} {reads : CBlock → Option IndexedTx} {block : CBlock}

theorem judgedEntry_eq_some {entry : IndexEntry}
    (h : judgedEntry env stake reads block index = some entry) :
    entry.hashBlock = block.getHash env.host.hash256 ∧
      entry.pprev = some block.hashPrevBlock ∧ index.ValidAt block.hashPrevBlock := by
  unfold judgedEntry at h
  obtain ⟨parent, hparent, rfl⟩ := Option.map_eq_some_iff.mp h
  obtain ⟨hprev, hvalid⟩ := Option.filter_eq_some_iff.mp hparent
  refine ⟨?_, ?_, parent, hprev, hvalid⟩
  · exact hashBlock_afterCheck (getStakeEntropyBit_le_one env)
  · rw [pprev_afterCheck]
    simp [newEntry, hprev]

theorem Sound.add (h : index.Sound) :
    Sound (Growth.add (fun block : CBlock => block.getHash env.host.hash256)
      (judgedEntry env stake reads) index block) := by
  unfold Growth.add
  cases hknown : index (block.getHash env.host.hash256) with
  | some known => exact h
  | none =>
    dsimp only
    cases hentry : judgedEntry env stake reads block index with
    | none =>
      rw [← hknown, Function.update_eq_self]
      exact h
    | some entry =>
      obtain ⟨hhash, hpprev, hvalid⟩ := judgedEntry_eq_some hentry
      rw [← hhash] at hknown ⊢
      refine ⟨h.keyed.insert entry, h.rooted.insert hknown ?_⟩
      intro _ prev hprev
      rw [hpprev, Option.some.injEq] at hprev
      rw [← hprev]
      exact hvalid

/-- Maps with a common extension that agree on the parent agree on the block. -/
theorem judgedEntry_congr (h : index.Sound) (h' : index'.Sound) (hwithin : Within index whole)
    (hwithin' : Within index' whole)
    (hparent : index block.hashPrevBlock = index' block.hashPrevBlock) :
    judgedEntry env stake reads block index = judgedEntry env stake reads block index' := by
  have hnew : index.newEntry env.host.hash256 block.toCBlockHeader =
      index'.newEntry env.host.hash256 block.toCBlockHeader := by
    unfold newEntry
    rw [hparent]
  cases hprev : index block.hashPrevBlock with
  | none =>
    unfold judgedEntry
    rw [← hparent, hprev, Option.filter_none, Option.map_none, Option.map_none]
  | some parent =>
    have hprev' : index' block.hashPrevBlock = some parent := hparent.symm.trans hprev
    unfold judgedEntry
    rw [hprev, hprev']
    by_cases hvalid : parent.isValid BLOCK_VALID_TRANSACTIONS = true
    · have hchain : index.chainOf parent = index'.chainOf parent :=
        (chainOf_within hwithin h.rooted hprev hvalid).trans
          (chainOf_within hwithin' h'.rooted hprev' hvalid).symm
      -- an ancestor is valid in both maps, where both find what the larger map has
      have hlookups : ∀ ancestor ∈ index.chainOf parent, LookupsAlike
          (index.insert (index.newEntry env.host.hash256 block.toCBlockHeader)).lookup
          (index'.insert (index.newEntry env.host.hash256 block.toCBlockHeader)).lookup
          ancestor.hashBlock := by
        intro ancestor hancestor
        have hfound := chainOf_valid h.keyed h.rooted hprev hvalid ancestor hancestor
        rw [hchain] at hancestor
        have hfound' := chainOf_valid h'.keyed h'.rooted hprev' hvalid ancestor hancestor
        exact lookupsAlike_insert
          ((hfound.eq_within hwithin).trans (hfound'.eq_within hwithin').symm) _
      rw [Option.filter_some, if_pos hvalid, Option.map_some, Option.map_some]
      unfold judge
      rw [hnew, hchain] at hlookups ⊢
      rw [afterCheck_bare_congr _ hlookups]
    · rw [Option.filter_some, if_neg hvalid, Option.map_none, Option.map_none]

theorem local_judgedEntry : Growth.Local (fun block => block.getHash env.host.hash256)
    (fun block => block.hashPrevBlock) (judgedEntry env stake reads) Sound where
  sound _ _ h := h.add
  needs block index h := by
    have hprev : index block.hashPrevBlock = none := h
    unfold judgedEntry
    rw [hprev, Option.filter_none, Option.map_none]
  depends _ _ _ _ h h' hwithin hwithin' hparent := judgedEntry_congr h h' hwithin hwithin' hparent

end BlockMap

/-! ## Nodes that receive blocks and are restarted -/

inductive StakeEvent where
  /-- a block arrives; `rand` gives the random numbers of its check -/
  | arrival (rand : ℕ → ℕ) (arrival : StakeArrival)
  | restart

def StakeEvent.arrival? : StakeEvent → Option StakeArrival
  | .arrival _ received => some received
  | .restart => none

/-- The blocks of a run, in the order in which they arrive. -/
def arrivingBlocks (events : List StakeEvent) : List CBlock :=
  (events.filterMap StakeEvent.arrival?).map StakeArrival.block

/-- The stake that a node notes when it accepts a block.  Its time is that of the header. -/
def CBlock.notedStake (block : CBlock) : COutPoint × UInt32 :=
  (block.getProofOfStake.1, block.nTime)

/-- The second block would be refused as a duplicate by a node that has accepted the first. -/
def CBlock.Clashes (first second : CBlock) : Prop :=
  first.isProofOfStake = true ∧ second.isProofOfStake = true ∧
    second.getProofOfStake = first.notedStake

/-- The block under a hash is marked as failed. -/
def BlockMap.FailedAt (index : BlockMap) (hash : Uint256) : Prop :=
  (index hash).map (fun entry => entry.nStatus.failedValid) = some true

instance (index : BlockMap) (hash : Uint256) : Decidable (index.FailedAt hash) :=
  inferInstanceAs (Decidable (_ = _))

namespace StakeNode

/-- After a restart the block index is loaded from disk, but the set of stakes is empty. -/
def restart (node : StakeNode) : StakeNode := { node with setStakeSeen := [] }

def step (env : Env) (stake : StakeRules) (node : StakeNode) : StakeEvent → StakeNode
  | .arrival rand arrival => node.accept env stake rand arrival
  | .restart => node.restart

variable {node : StakeNode} {rand : ℕ → ℕ} {arrival : StakeArrival}
  {reads : CBlock → Option IndexedTx}

theorem mem_seen_accept {key : COutPoint × UInt32}
    (h : key ∈ (node.accept env stake rand arrival).setStakeSeen) : key ∈ node.setStakeSeen ∨
      arrival.block.isProofOfStake = true ∧ key = arrival.block.notedStake := by
  cases hparent : node.parent? env arrival with
  | none =>
    rw [accept_of_none hparent] at h
    exact .inl h
  | some parent =>
    rw [(accept_of_some hparent rand).2] at h
    cases hcheck : node.check env stake rand arrival parent with
    | error failure =>
      rw [hcheck] at h
      exact .inl h
    | ok checked =>
      rw [hcheck] at h
      rw [check_eq] at hcheck
      split at hcheck
      · cases hcheck
      · split at hcheck
        · cases hcheck
          have hmem : key ∈ seenAfter node.setStakeSeen arrival.block arrival.block.nTime := h
          unfold seenAfter at hmem
          split at hmem
          · next hstake =>
            rcases List.mem_insert_iff.mp hmem with rfl | hmem
            · exact .inr ⟨hstake, rfl⟩
            · exact .inl hmem
          · exact .inl hmem
        · cases hcheck

theorem entryAfter_eq (checked : Except BlockFail (CBlockIndex × List (COutPoint × UInt32))) :
    node.entryAfter env arrival checked = (node.fresh env arrival).afterCheck checked := by
  cases checked with
  | error failure => rfl
  | ok checked => rfl

/-- A node judges a block by its ancestors, if the stake of the block was not seen and its
kernel does not read the active chain. -/
theorem index_accept (hread : readStaked arrival.g_txindex arrival.block = reads arrival.block)
    (hfree : arrival.block.isProofOfStake = true →
      ChainFree env (txTime (coinstake arrival.block) arrival.block))
    (hseen : arrival.block.isProofOfStake = true →
      arrival.block.getProofOfStake ∉ node.setStakeSeen) :
    (node.accept env stake rand arrival).index =
      Growth.add (fun block : CBlock => block.getHash env.host.hash256)
        (BlockMap.judgedEntry env stake reads) node.index arrival.block := by
  have hhash : arrival.hash env = arrival.block.getHash env.host.hash256 := rfl
  cases hparent : node.parent? env arrival with
  | none =>
    rw [accept_of_none hparent]
    unfold Growth.add
    unfold StakeNode.parent? at hparent
    rw [hhash] at hparent
    cases hknown : node.index (arrival.block.getHash env.host.hash256) with
    | some known => rfl
    | none =>
      rw [hknown] at hparent
      dsimp only at hparent ⊢
      unfold BlockMap.judgedEntry
      rw [hparent, Option.map_none, ← hknown, Function.update_eq_self]
  | some parent =>
    obtain ⟨hnew, hprev, hvalid⟩ := parent?_eq_some_iff.mp hparent
    have hentry : BlockMap.judgedEntry env stake reads arrival.block node.index =
        some (node.entryAfter env arrival (node.check env stake rand arrival parent)) := by
      unfold BlockMap.judgedEntry
      rw [hprev, Option.filter_some, if_pos hvalid, Option.map_some, ← hread]
      rw [entryAfter_eq, StakeNode.check, StakeNode.kernel, afterCheck_bare _ hfree hseen]
      rfl
    rw [(accept_of_some hparent rand).1]
    unfold Growth.add BlockMap.insert
    rw [hhash] at hnew
    rw [hnew, hentry, hashBlock_entryAfter]
    rfl

/-- A whole run fills the block index by the judgement of each block. -/
theorem index_after {events : List StakeEvent}
    (hread : ∀ arrival ∈ events.filterMap StakeEvent.arrival?,
      readStaked arrival.g_txindex arrival.block = reads arrival.block)
    (hfree : ∀ block ∈ arrivingBlocks events, block.isProofOfStake = true →
      ChainFree env (txTime (coinstake block) block))
    (hclash : (arrivingBlocks events).Pairwise fun first second => ¬ first.Clashes second) :
    ∀ {node : StakeNode}, (∀ block ∈ arrivingBlocks events, block.isProofOfStake = true →
        block.getProofOfStake ∉ node.setStakeSeen) →
      (Run.after (step env stake) events node).index =
        Growth.fill (fun block : CBlock => block.getHash env.host.hash256)
          (BlockMap.judgedEntry env stake reads) (arrivingBlocks events) node.index := by
  induction events with
  | nil => intro node _; rfl
  | cons event rest ih =>
    intro node hseen
    cases event with
    | restart =>
      have hrest := @ih hread hfree hclash node.restart fun block hblock _ => List.not_mem_nil
      exact hrest
    | arrival rand arrival =>
      have hblocks : arrivingBlocks (.arrival rand arrival :: rest) =
          arrival.block :: arrivingBlocks rest := rfl
      rw [hblocks] at hfree hclash hseen ⊢
      obtain ⟨hfirst, hlater⟩ := List.pairwise_cons.mp hclash
      have hstep : (node.accept env stake rand arrival).index =
          Growth.add (fun block : CBlock => block.getHash env.host.hash256)
            (BlockMap.judgedEntry env stake reads) node.index arrival.block :=
        index_accept (hread arrival (.head _))
          (hfree arrival.block (.head _))
          (hseen arrival.block (.head _))
      -- what the block adds to the stakes seen belongs to no later block
      have hunseen : ∀ block ∈ arrivingBlocks rest, block.isProofOfStake = true →
          block.getProofOfStake ∉ (node.accept env stake rand arrival).setStakeSeen := by
        intro block hblock hstake hmem
        rcases mem_seen_accept hmem with hold | ⟨hstake', hkey⟩
        · exact hseen block (.tail _ hblock) hstake hold
        · exact hfirst block hblock ⟨hstake', hstake, hkey⟩
      have hrest := ih (fun arrival harrival => hread arrival (.tail _ harrival))
        (fun block hblock => hfree block (.tail _ hblock)) hlater hunseen
      rw [hstep] at hrest
      exact hrest

end StakeNode

/-! ## Two orders -/

/-- A node receives the blocks, each once and parents first, and reads the given staked
transactions in its transaction index.  Between the blocks it may be restarted. -/
structure Receives (env : Env) (reads : CBlock → Option IndexedTx) (received : List CBlock)
    (events : List StakeEvent) : Prop where
  perm : (arrivingBlocks events).Perm received
  parentsFirst : Growth.ParentsFirst (fun block : CBlock => block.getHash env.host.hash256)
    (fun block => block.hashPrevBlock) (arrivingBlocks events)
  reads : ∀ arrival ∈ events.filterMap StakeEvent.arrival?,
    readStaked arrival.g_txindex arrival.block = reads arrival.block

/-- No block has the stake of another one, or one that the node has seen before, and no
kernel reads the active chain. -/
structure Unclashed (env : Env) (seen : List (COutPoint × UInt32)) (received : List CBlock) :
    Prop where
  chainFree : ∀ block ∈ received, block.isProofOfStake = true →
    ChainFree env (txTime (coinstake block) block)
  unseen : ∀ block ∈ received, block.isProofOfStake = true → block.getProofOfStake ∉ seen
  apart : ∀ first ∈ received, ∀ second ∈ received, first ≠ second → ¬ first.Clashes second

theorem Receives.index_after {reads : CBlock → Option IndexedTx} {received : List CBlock}
    {events : List StakeEvent} {start : StakeNode} (h : Receives env reads received events)
    (hunclashed : Unclashed env start.setStakeSeen received) :
    (Run.after (StakeNode.step env stake) events start).index =
      Growth.fill (fun block : CBlock => block.getHash env.host.hash256)
        (BlockMap.judgedEntry env stake reads) (arrivingBlocks events) start.index := by
  have hmem : ∀ block ∈ arrivingBlocks events, block ∈ received := fun block =>
    h.perm.mem_iff.mp
  have hdistinct : (arrivingBlocks events).Pairwise (· ≠ ·) := h.parentsFirst.nodup.of_map
  apply StakeNode.index_after h.reads
  · exact fun block hblock => hunclashed.chainFree block (hmem block hblock)
  · refine hdistinct.imp_of_mem fun hfirst hsecond hne => ?_
    exact hunclashed.apart _ (hmem _ hfirst) _ (hmem _ hsecond) hne
  · exact fun block hblock => hunclashed.unseen block (hmem block hblock)

/-- Two orders of the same blocks, with restarts anywhere, mark the same blocks as failed, if
no two of the blocks clash. -/
theorem failedAt_iff_of_unclashed {reads : CBlock → Option IndexedTx} {received : List CBlock}
    {events events' : List StakeEvent} {start : StakeNode}
    (h : Receives env reads received events) (h' : Receives env reads received events')
    (hunclashed : Unclashed env start.setStakeSeen received) (hash : Uint256) :
    (Run.after (StakeNode.step env stake) events start).index.FailedAt hash ↔
      (Run.after (StakeNode.step env stake) events' start).index.FailedAt hash := by
  rw [h.index_after hunclashed, h'.index_after hunclashed]
  have hsound : start.index.Sound := ⟨start.keyed, start.rooted⟩
  rw [BlockMap.local_judgedEntry.fill_perm hsound (h.perm.trans h'.perm.symm) h.parentsFirst
    h'.parentsFirst]

namespace SmallNet

/-- A block after the genesis block that stakes a genesis coin with a coinstake of version 1,
whose time is that of the block. -/
def rivalBlock (n : UInt32) (out : List CTxOut) : CBlock :=
  mkBlock 1 genesisHash 1700001000
    [{ mkCoinstake (genesisPrevout n) out with nVersion := 1, nTime := 1700001000 }] []

/-- Blocks that arrive one after the other, with restarts between them. -/
def rivalEvents (blocks : List (Option CBlock)) : List StakeEvent :=
  blocks.map fun block => match block with
    | some block => .arrival (fun _ => 0) ⟨block, genesisHash, some genesisTxIndex⟩
    | none => .restart

/-- Rivals for one genesis coin. -/
def firstRival : CBlock := rivalBlock 0 [genesisOut]

def secondRival : CBlock := rivalBlock 0 [genesisOut, genesisOut]

/-- A block that stakes another genesis coin. -/
def otherStake : CBlock := rivalBlock 1 [genesisOut]

theorem receives_rivals {blocks : List (Option CBlock)} {received : List CBlock}
    (hperm : (arrivingBlocks (rivalEvents blocks)).Perm received)
    (hnodup : (received.map fun block : CBlock => block.getHash hash256).Nodup)
    (hparents : ∀ block ∈ received, ∀ later ∈ received,
      block.hashPrevBlock ≠ later.getHash hash256) :
    Receives (SmallNet.node false false) (readStaked (some genesisTxIndex)) received
      (rivalEvents blocks) where
  perm := hperm
  parentsFirst :=
    { nodup := (hperm.map _).nodup_iff.mpr hnodup
      ordered := by
        refine List.pairwise_iff_forall_sublist.mpr fun {earlier later} hsublist => ?_
        have hmem : ∀ block ∈ [earlier, later], block ∈ received := fun block hblock =>
          hperm.mem_iff.mp (hsublist.subset hblock)
        exact hparents earlier (hmem _ (by simp)) later (hmem _ (by simp))
      irrefl := fun block hblock =>
        hparents block (hperm.mem_iff.mp hblock) block (hperm.mem_iff.mp hblock) }
  reads := by
    intro arrival harrival
    obtain ⟨event, hevent, harrives⟩ := List.mem_filterMap.mp harrival
    obtain ⟨block, -, rfl⟩ := List.mem_map.mp hevent
    cases block with
    | none => cases harrives
    | some block =>
      cases harrives
      rfl

/-- Two blocks with stakes of their own, in both orders and with a restart. -/
theorem failedAt_other_stakes : (Run.after (StakeNode.step (SmallNet.node false false) stakeRules)
        (rivalEvents [some firstRival, some otherStake])
        genesisStakeNode).index.FailedAt (otherStake.getHash hash256) ↔
      (Run.after (StakeNode.step (SmallNet.node false false) stakeRules)
        (rivalEvents [some otherStake, none, some firstRival])
        genesisStakeNode).index.FailedAt (otherStake.getHash hash256) := by
  have hunclashed : Unclashed (SmallNet.node false false) genesisStakeNode.setStakeSeen
      [firstRival, otherStake] := by
    refine ⟨?_, fun _ _ _ => List.not_mem_nil, ?_⟩
    · unfold ChainFree
      decide +kernel
    · unfold CBlock.Clashes
      decide +kernel
  have hreceives : Receives (SmallNet.node false false) (readStaked (some genesisTxIndex))
      [firstRival, otherStake] (rivalEvents [some firstRival, some otherStake]) :=
    receives_rivals (List.Perm.refl _) (by decide +kernel) (by decide +kernel)
  have hreceives' : Receives (SmallNet.node false false) (readStaked (some genesisTxIndex))
      [firstRival, otherStake] (rivalEvents [some otherStake, none, some firstRival]) :=
    receives_rivals (List.Perm.swap ..) (by decide +kernel) (by decide +kernel)
  exact failedAt_iff_of_unclashed hreceives hreceives' hunclashed _

/-- The second of two rivals is marked, whichever it is, and none after a restart. -/
theorem rival_marked_by_order :
    Receives (SmallNet.node false false) (readStaked (some genesisTxIndex))
        [firstRival, secondRival] (rivalEvents [some firstRival, some secondRival]) ∧
      Receives (SmallNet.node false false) (readStaked (some genesisTxIndex))
        [firstRival, secondRival] (rivalEvents [some secondRival, some firstRival]) ∧
      Receives (SmallNet.node false false) (readStaked (some genesisTxIndex))
        [firstRival, secondRival] (rivalEvents [some firstRival, none, some secondRival]) ∧
      (Run.after (StakeNode.step (SmallNet.node false false) stakeRules)
        (rivalEvents [some firstRival, some secondRival])
        genesisStakeNode).index.FailedAt (secondRival.getHash hash256) ∧
      ¬ (Run.after (StakeNode.step (SmallNet.node false false) stakeRules)
        (rivalEvents [some secondRival, some firstRival])
        genesisStakeNode).index.FailedAt (secondRival.getHash hash256) ∧
      ¬ (Run.after (StakeNode.step (SmallNet.node false false) stakeRules)
        (rivalEvents [some firstRival, none, some secondRival])
        genesisStakeNode).index.FailedAt (secondRival.getHash hash256) := by
  refine ⟨receives_rivals (List.Perm.refl _) (by decide +kernel) (by decide +kernel),
    receives_rivals (List.Perm.swap ..) (by decide +kernel) (by decide +kernel),
    receives_rivals (List.Perm.refl _) (by decide +kernel) (by decide +kernel),
    by decide +kernel, by decide +kernel, by decide +kernel⟩

end SmallNet

end Patchcoin
