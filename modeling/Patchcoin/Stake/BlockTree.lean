import Patchcoin.Stake.Retry

/-!
# The block index of a running node

`AddToBlockIndex` gives an entry one more than the height of its parent and adds its own
trust to that of the parent.  Later `AcceptBlock` marks entries as failed and writes them
again.  At any time the entries are a tree with the genesis block as its root, in which
`nChainTrust`, by which the best chain is chosen, adds up along the branches.

`BlockMap.Maintained` leaves two cases: a new entry and an update.
-/

namespace Patchcoin

namespace BlockMap

/-- Only the genesis block has no parent.  The others add their trust to that of the parent. -/
structure Tree (genesis : Uint256) (index : BlockMap) : Prop extends index.Proper genesis where
  root : ∀ hash entry, index hash = some entry → entry.pprev = none →
    hash = genesis ∧ entry.nHeight = 0
  trust : ∀ hash entry prev parent, index hash = some entry → hash ≠ genesis →
    entry.pprev = some prev → index prev = some parent →
      entry.nChainTrust = (parent.nChainTrust + getBlockTrust entry.toCBlockIndex) % 2 ^ 256

variable {genesis : Uint256} {index : BlockMap} {entry written : IndexEntry}

theorem Tree.addToBlockIndex (htree : index.Tree genesis) {hash256 : List UInt8 → Uint256}
    {header : CBlockHeader} (hgoes : header.getHash hash256 ≠ genesis →
      isProofOfStakeHeader header = true ∧ ∃ parent, index header.hashPrevBlock = some parent) :
    (index.addToBlockIndex hash256 header).1.Tree genesis := by
  have hproper := htree.toProper.addToBlockIndex hash256 fun hother => (hgoes hother).1
  have hkept {prev : Uint256} {parent known : IndexEntry} (hknown : index prev = some known)
      (hparent : (index.addToBlockIndex hash256 header).1 prev = some parent) : known = parent :=
    Option.some.inj ((addToBlockIndex_of_some hknown hash256 header).symm.trans hparent)
  refine ⟨hproper, ?_, ?_⟩
  · intro hash entry hentry hprev
    rcases addToBlockIndex_cases hentry with hold | ⟨rfl, rfl⟩
    · exact htree.root hash entry hold hprev
    · have hnone : index header.hashPrevBlock = none := Option.map_eq_none_iff.mp hprev
      refine ⟨?_, by rw [toCBlockIndex_newEntry, hnone]; rfl⟩
      by_contra hother
      obtain ⟨-, parent, hparent⟩ := hgoes hother
      rw [hnone] at hparent
      cases hparent
  · intro hash entry prev parent hentry hother hprev hparent
    rcases addToBlockIndex_cases hentry with hold | ⟨rfl, rfl⟩
    · obtain ⟨known, hknown, -⟩ := htree.linked hash entry prev hold hprev
      obtain rfl := hkept hknown hparent
      exact htree.trust hash entry prev known hold hother hprev hknown
    · obtain ⟨known, hknown, rfl⟩ := Option.map_eq_some_iff.mp hprev
      obtain rfl := hkept hknown hparent
      unfold newEntry
      rw [hknown]
      rfl

theorem Tree.update (htree : index.Tree genesis) (h : index.Updates entry written) :
    (index.insert written).Tree genesis := by
  -- the entries before the update, with the same parents and trust
  have hcases {hash : Uint256} {found : IndexEntry}
      (hfound : index.insert written hash = some found) :
      ∃ old, index hash = some old ∧ found.pprev = old.pprev ∧ found.nHeight = old.nHeight ∧
        found.nChainTrust = old.nChainTrust ∧ (hash ≠ genesis →
          getBlockTrust found.toCBlockIndex = getBlockTrust old.toCBlockIndex) := by
    rcases h.cases hfound with hold | ⟨rfl, rfl⟩
    · exact ⟨found, hold, rfl, rfl, rfl, fun _ => rfl⟩
    · refine ⟨entry, h.known, h.pprev, h.nHeight, h.nChainTrust, fun hother => ?_⟩
      have hflag := htree.flagged _ entry h.known hother
      unfold getBlockTrust
      rw [h.nBits, hflag, h.isProofOfStake hflag]
  refine ⟨htree.toProper.update h, ?_, ?_⟩
  · intro hash found hfound hprev
    obtain ⟨old, hold, hpprev, hheight, -⟩ := hcases hfound
    rw [hheight]
    exact htree.root hash old hold (hpprev.symm.trans hprev)
  · intro hash found prev parent hfound hother hprev hparent
    obtain ⟨old, hold, hpprev, -, htrust, hown⟩ := hcases hfound
    obtain ⟨oldParent, holdParent, -, -, htrustParent, -⟩ := hcases hparent
    rw [htrust, htrustParent, hown hother]
    exact htree.trust hash old prev oldParent hold hother (hpprev.symm.trans hprev) holdParent

theorem Tree.maintained {env : Env} : Maintained env (Tree env.params.hashGenesisBlock) where
  keyed htree := htree.keyed
  add htree hgoes := htree.addToBlockIndex hgoes
  update htree h := htree.update h

end BlockMap

variable {env : Env} {rules : HeaderRules} {stake : StakeRules}

/-- Whatever happens to a node that starts with an empty block index, its entries are a tree with
the genesis block as the root: each is under its hash, has a parent one height below unless it is
the root, and adds its trust to that of the parent. -/
theorem tree_of_run {start : ChainMan} (hstart : start.index = fun _ => none)
    (events : List NodeEvent) :
    (Run.after (ChainMan.step env rules stake) events start).index.Tree
      env.params.hashGenesisBlock := by
  refine Run.after_invariant BlockMap.Tree.maintained.step ?_
  rw [hstart]
  exact ⟨@proper_of_run env rules stake { start with index := fun _ => none } rfl [],
    fun _ _ h => (by cases h), fun _ _ _ _ h => (by cases h)⟩

namespace SmallNet

def nextBlock : CBlock :=
  { mintedBlock 1700001000 (genesisPrevout 0) with hashPrevBlock := checkpointHash }

/-- A node that tells the header of the next block from all other data. -/
def pairNode : Env :=
  { checkpointNode with
    host := { host with
      hash256 := fun bytes =>
        if bytes = serHeader nextBlock.toCBlockHeader then 1 else checkpointHash } }

/-- The genesis block is saved in the second attempt, after a restart, and the next one arrives. -/
def pairEvents : List NodeEvent :=
  [.arrives fullDisk savedGenesis, .restarts, .arrives acceptCall savedGenesis,
    .activated checkpointHash, .arrives acceptCall nextBlock]

/-- The next block is in the tree, one height above the genesis block. -/
theorem nextBlock_in_tree :
    let man := Run.after (ChainMan.step pairNode headerRules stakeRules) pairEvents emptyMan
    (man.index 1).map (fun entry => (entry.pprev, entry.nHeight)) = some (some checkpointHash, 1) ∧
      man.index.Tree checkpointHash := by
  have htree := @tree_of_run pairNode headerRules stakeRules emptyMan rfl pairEvents
  exact ⟨by decide +kernel, htree⟩

end SmallNet

end Patchcoin
