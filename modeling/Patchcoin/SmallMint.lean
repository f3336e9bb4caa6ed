import Patchcoin.Mint.NewBlock

/-!
# Minting on the small network

A wallet that holds coins of the genesis key, and a node whose tip is the first block after
the genesis block.  A coin is old enough after a hundred seconds, and a kernel must not be
later than about a hundred seconds after the tip, so that a search that starts too late finds
its kernel in the past.
-/

namespace Patchcoin.SmallNet

def genesisCoin (n : UInt32) : COutput := ⟨genesisPrevout n, genesisOut, by decide⟩

/-- Claims by their times. -/
def sortClaims (claims : List Claim) : List Claim :=
  claims.insertionSort fun a b => a.nTime ≤ b.nTime

theorem sortClaims_sorted (claims : List Claim) :
    (sortClaims claims).Pairwise fun a b => a.nTime ≤ b.nTime := by
  have : Std.Total fun a b : Claim => a.nTime ≤ b.nTime := ⟨fun a b => le_total _ _⟩
  have : IsTrans Claim fun a b => a.nTime ≤ b.nTime := ⟨fun a b c => le_trans⟩
  exact List.pairwise_insertionSort _ claims

/-- A wallet with the given coins and transactions, whose signatures have 72 bytes. -/
def mintWallet (coins : List COutput) (mapWallet : List CWalletTx) : CWallet where
  m_coinstakes := []
  nBalance := 300000 * COIN
  nBalance_le := by decide
  reservebalance := none
  selectCoins _ := some coins
  mapWallet := mapWallet
  getPubKey _ := none
  m_combine_coins := true
  m_split_coins := true
  maxMintingUtxos := 1000
  maxMintingUtxos_pos := by decide
  sign _ _ := some fun _ => (⟨List.replicate 72 0⟩, [])
  sort := sortClaims
  sort_perm := fun claims => List.perm_insertionSort _ claims
  sort_sorted := sortClaims_sorted

/-- The coins are old enough after a hundred seconds. -/
def mintNode : Env := { node false false with params := { params with nStakeMinAge := 100 } }

def mintRules : StakeRules := { stakeRules with nModifierInterval := 1 }

/-- The first block after the genesis block, 200 seconds later. -/
def firstEntry : IndexEntry :=
  { CBlockIndex.ofHeader 77 1 { genesisBlock.toCBlockHeader with nTime := 1700000200 } with
    nFlags := CBlockIndex.BLOCK_PROOF_OF_STAKE
    pprev := some genesisHash }

def firstIndex : BlockMap := fun hash =>
  if hash = 77 then some firstEntry else genesisIndex hash

/-- The coins that the wallet of the small network mints with. -/
def mintView : CCoinsView :=
  ⟨fun outpoint => if outpoint = genesisPrevout 0 then
    some ⟨genesisOut, true, false, 0, 1700000000⟩ else none, 77⟩

/-- A search for a kernel that starts at the given time. -/
def mintCall (now : UInt32) : MintCall where
  now := now
  time := now.toNat
  nBits := 0
  nSearchInterval := 0
  nFees := 0
  nBlockTx := 0
  mintKey := none
  g_txindex := some genesisTxIndex
  view := ⟨fun _ => none, [firstEntry.toCBlockIndex, genesisEntry.toCBlockIndex]⟩
  coinsTip := ⟨fun _ => none, 77⟩
  g_claims := ∅
  optimalAmount := 0
  beyond := ⟨[]⟩

/-- A node that puts the given transactions of its memory pool into the block. -/
def mintAssembler (test_block_validity : Bool) (now : UInt32) (txs : List CTransaction) :
    BlockAssembler where
  test_block_validity := test_block_validity
  nBlockMaxWeight := 3996000
  m_mempool := some (txs.map fun tx => ⟨[⟨tx, 10000, getTransactionWeight tx, 4⟩], 100, 4⟩)
  nTime := now
  packageTime := now
  nLastCoinStakeSearchTime := now.toNat - 60
  rules := headerRules
  index := firstIndex
  pindexPrev := firstEntry
  setStakeSeen := []
  kernel := stakeKernel
  ctx := ordinary

/-- A transaction of the memory pool with the given time in memory. -/
def pooledTx (nTime : UInt32) : CTransaction :=
  ⟨[⟨⟨3, 0⟩, ⟨[]⟩, 0xffffffff, []⟩], [⟨1000000, payToKeyHash 3⟩], 3, nTime, 0⟩

/-- The search starts five seconds too late: the kernel is found five seconds before. -/
def lateStake : CreatedStake where
  txNew :=
    { vin := [⟨genesisPrevout 0, ⟨List.replicate 72 0⟩, 0xffffffff, []⟩]
      vout := [⟨0, ⟨[]⟩⟩, ⟨100000010000, genesisPubKey⟩]
      nVersion := 3
      nTime := 1700000298
      nLockTime := 0 }
  vClaim := []
  genesis_key_held := true
  built := some ([genesisCoin 0], 0)

/-! ## Many claims -/

/-- The source and the target of a claim of the crowd. -/
def crowdSource (n : ℕ) : CScript := payToKeyHash (UInt8.ofNat (100 + n))

def crowdTarget (n : ℕ) : CScript := payToKeyHash (UInt8.ofNat (1 + n))

/-- A node with so many sources in its snapshot, each with the same balance. -/
def crowdNode (count : ℕ) (balance : ℤ) : Env :=
  { mintNode with
    snapshot :=
      { scriptPubKeys :=
          Std.ExtTreeMap.ofList ((List.range count).map fun n => (crowdSource n, balance))
        incompatibleScriptPubKeys := Std.ExtTreeMap.ofList [(payToKeyHash 9, [])]
        hashScripts := 5 } }

/-- A claim for every source of the crowd. -/
def crowdClaims (count : ℕ) (balance : ℤ) : ClaimPool :=
  Std.ExtTreeMap.ofList ((List.range count).map fun n => (crowdSource n,
    Claim.ofCClaim (crowdNode count balance) (mkClaim (crowdSource n) (crowdTarget n))))

/-- The call of `CreateCoinStake` for a block without transactions of the pool. -/
def crowdCall (count : ℕ) (balance : ℤ) : MintCall :=
  (mintAssembler false 1700000303 []).stakeCall (crowdNode count balance)
    { mintCall 1700000303 with g_claims := crowdClaims count balance }

/-- The coinstake that pays the only claim. -/
def singleStake : CreatedStake where
  txNew :=
    { vin := [⟨genesisPrevout 0, ⟨List.replicate 72 0⟩, 0xffffffff, []⟩]
      vout := [⟨0, ⟨[]⟩⟩, ⟨0, genesisPubKey⟩, ⟨100000000, crowdTarget 0⟩,
        ⟨99900000000, genesisPubKey⟩]
      nVersion := 3
      nTime := 1700000298
      nLockTime := 0 }
  vClaim := [mkClaim (crowdSource 0) (crowdTarget 0)]
  genesis_key_held := true
  built := some ([genesisCoin 0], 0)

end Patchcoin.SmallNet
