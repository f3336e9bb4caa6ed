import Patchcoin.Chain.Accept
import Patchcoin.SmallNet

/-!
# Staking on the small network

The stake rules of the small network, a transaction index that holds the genesis
transaction, and a node that has connected the genesis block and nothing else.
The first block after it stakes an output of the genesis transaction; its kernel
is not hashed, so that the hash functions of the small network do not matter.
-/

namespace Patchcoin.SmallNet

def stakeRules : StakeRules where
  nModifierInterval := 1000
  nStakeMaxAge := 7776000
  verifyScript _ _ := true

/-- A transaction index that holds the genesis transaction. -/
def genesisTxIndex : TxIndex where
  findTxPosition hash := if hash = genesisTx.getHash hash256 then some ⟨0, 1⟩ else none
  cachedTxs _ := none
  readBlockFile _ := some (genesisBlock.toCBlockHeader, genesisTx)

def genesisEntry : IndexEntry :=
  { CBlockIndex.ofHeader genesisHash 0 genesisBlock.toCBlockHeader with
    nStatus := { validity := BLOCK_VALID_SCRIPTS, haveData := true }
    nFlags := CBlockIndex.BLOCK_STAKE_MODIFIER
    nMint := params.genesisValue
    pprev := none }

def genesisIndex : BlockMap := fun hash => if hash = genesisHash then some genesisEntry else none

theorem genesisIndex_eq_some {hash : Uint256} {entry : IndexEntry}
    (h : genesisIndex hash = some entry) : hash = genesisHash ∧ entry = genesisEntry := by
  unfold genesisIndex at h
  split at h
  · next heq => exact ⟨heq, (Option.some.inj h).symm⟩
  · cases h

/-- A node that has connected the genesis block only. -/
def genesisStakeNode : StakeNode where
  index := genesisIndex
  setStakeSeen := []
  keyed := by
    intro hash entry h
    obtain ⟨rfl, rfl⟩ := genesisIndex_eq_some h
    rfl
  rooted := by
    intro hash entry h _ prev hprev
    obtain ⟨rfl, rfl⟩ := genesisIndex_eq_some h
    exact absurd hprev (by simp [genesisEntry])

/-- The block after the genesis block, which stakes a genesis coin. -/
def stakeBlock (time : UInt32) : CBlock :=
  mkBlock 1 genesisHash time [mkCoinstake (genesisPrevout 0) [genesisOut]] []

def stakeArrival (time : UInt32) : StakeArrival where
  block := stakeBlock time
  tip := genesisHash
  g_txindex := some genesisTxIndex

theorem index_genesisStakeNode : genesisStakeNode.index = genesisIndex := rfl

theorem genesisIndex_genesisHash : genesisIndex genesisHash = some genesisEntry := if_pos rfl

theorem stakeArrival_parent {env : Env} {time : UInt32}
    (hnew : (genesisIndex ((stakeArrival time).hash env)).isNone = true) :
    genesisStakeNode.parent? env (stakeArrival time) = some genesisEntry := by
  have hprev : (stakeArrival time).block.hashPrevBlock = genesisHash := by
    simp only [stakeArrival, stakeBlock, mkBlock]
  have hindex : genesisStakeNode.index (stakeArrival time).block.hashPrevBlock =
      some genesisEntry := by
    rw [index_genesisStakeNode, hprev, genesisIndex_genesisHash]
  exact StakeNode.parent?_eq_some_iff.mpr ⟨Option.isNone_iff_eq_none.mp hnew, hindex, rfl⟩

/-! ## Accepting blocks -/

def headerRules : HeaderRules where
  getNextTargetRequired _ _ := 0x207fffff
  checkpoints_enabled := false
  checkpoints := []
  nMinimumChainWork := 0

/-- A node that has accepted the genesis block only. -/
def genesisMan : ChainMan where
  index := genesisIndex
  m_failed_blocks := []
  setStakeSeen := []
  tip := genesisHash
  blockFiles := [genesisBlock]

def acceptCall : AcceptCall where
  now := 1700100000
  fRequested := true
  min_pow_checked := true
  g_txindex := some genesisTxIndex
  rand _ := 0
  saveBlockToDisk := .ok ()

/-- A block after the genesis block as a peer sends it, which stakes the given output. -/
def mintedBlock (time : UInt32) (prevout : COutPoint) : CBlock :=
  { mkBlock 1 genesisHash time [mkCoinstake prevout [genesisOut]] [] with
    nVersion := 6
    nBits := 0x207fffff
    nFlags := CBlockIndex.BLOCK_PROOF_OF_STAKE }

end Patchcoin.SmallNet
