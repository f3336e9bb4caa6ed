import Patchcoin.Chain.Tip

/-!
# A small network

A network on which the model can be run: two public keys and their hashes as
scripts, a snapshot with one source, a genesis coin, and blocks made of a
coinstake that spends it.  Cryptography is replaced by functions that are
simple to compute; a signature is valid if it is the byte one.  The other
modules show on this network that their hypotheses can be met, and where a
property fails they show it failing here.
-/

namespace Patchcoin.SmallNet

/-! ## Scripts -/

def pubKey (n : UInt8) : List UInt8 := 2 :: List.replicate 31 0 ++ [n]

def payToPubKey (n : UInt8) : CScript := ⟨33 :: pubKey n ++ [OP_CHECKSIG]⟩

/-- The output to the hash of `pubKey n`. -/
def payToKeyHash (n : UInt8) : CScript :=
  ⟨[OP_DUP, OP_HASH160, 20, n] ++ List.replicate 19 0 ++ [OP_EQUALVERIFY, OP_CHECKSIG]⟩

/-- The address of a key hash is a letter. -/
def address (kind : String) : CTxDestination → String
  | .PKHash hash => if hash.toNat < 26 then kind ++ String.singleton (Char.ofNat (97 + hash.toNat))
      else "key"
  | _ => "other"

/-! ## Cryptography -/

def hash256 (bytes : List UInt8) : Uint256 :=
  BitVec.ofNat 256 (bytes.foldl (fun hash byte => hash * 257 + byte.toNat + 1) 7)

def genesisPubKey : CScript := payToPubKey 7

/-- One output of the genesis transaction. -/
def genesisOut : CTxOut := ⟨100000000000, genesisPubKey⟩

def genesisTx : CTransaction :=
  { vin := [⟨COutPoint.null, ⟨[0, 0]⟩, 0xffffffff, []⟩]
    vout := [genesisOut, genesisOut, genesisOut]
    nVersion := 3
    nTime := 0
    nLockTime := 0 }

def genesisBlock : CBlock :=
  { nVersion := 1
    hashPrevBlock := 0
    hashMerkleRoot := genesisTx.getHash hash256
    nTime := 1700000000
    nBits := 0
    nNonce := 0
    vtx := [genesisTx]
    vchBlockSig := []
    vClaim := [] }

def host : Host where
  hash256 := hash256
  hash160 key := BitVec.ofNat 160 (key.getLastD 0).toNat
  verify _ _ signature := signature == [1]
  encodeDestination := address "p"
  encodeDestination_BTC := address "b"
  decodeDestination _ := .PKHash 1
  decodeDestination_BTC _ := .PKHash 1
  encodeBase64 bytes := if bytes.isEmpty then "" else "signature"
  encodeHexTx _ := "transaction"
  messageVerify _ _ _ := true
  verifyDummyScript _ _ := true
  checkInputScripts _ _ _ := .ok ()
  countWitnessSigOps _ _ _ := 0
  checkSignetBlockSolution _ _ := true
  txindex hash :=
    if hash = genesisTx.getHash hash256 then some (genesisBlock.toCBlockHeader, genesisTx) else none

/-! ## The network -/

def startTime : ℕ := 1700000000

def params : Params where
  network := .regtest
  hashGenesisBlock := genesisBlock.getHash hash256
  hashGenesisTx := genesisTx.getHash hash256
  hashPeercoinSnapshot := 5
  signet_blocks := false
  nStakeMinAge := 0
  nCoinbaseMaturity := 1
  nStakeGenesisLockTime := 1000
  genesisNTime := startTime
  genesisPubKey := genesisPubKey
  genesisValue := 1000000 * COIN
  genesisOutputs := 10

/-- The key hash of number one holds a thousand coins in the snapshot. -/
def snapshot : Snapshot where
  scriptPubKeys := Std.ExtTreeMap.ofList [(payToKeyHash 1, 1000 * COIN)]
  incompatibleScriptPubKeys := Std.ExtTreeMap.ofList [(payToKeyHash 9, [])]
  hashScripts := 5

/-- A node with the given options.  The lookup service reports two million units for
every Bitcoin address, which are worth a hundred coins. -/
def node (genesis_key_held lookup : Bool) : Env where
  params := params
  snapshot := snapshot
  host := host
  options :=
    { genesis_key_held
      lookup := if lookup then some fun _ => 2000000 else none
      electrumVerify := fun _ _ _ => true }

/-- A node of the network whose genesis value is what its genesis block pays. -/
def wholeGenesis : Env :=
  { node false false with
    params := { params with genesisValue := 300000 * COIN, genesisOutputs := 3 } }

def stakeKernel : Kernel where
  checkProofOfStake _ _ _ _ := .ok 3
  getStakeEntropyBit _ := 1
  computeNextStakeModifier _ _ := some (1, true)
  getStakeModifierChecksum _ _ := 4
  checkStakeModifierCheckpoints _ _ := true

def ordinary : Circumstances := ⟨true, false, .ok ()⟩

/-! ## Blocks -/

def nullTx : CTransaction := ⟨[], [], 3, 0, 0⟩

/-- A claim on a source that signs a message, or on a Bitcoin source. -/
def mkClaim (source target : CScript) : CClaim := ⟨1, source, target, List.replicate 65 1, nullTx⟩

/-- The coinbase of the block at a height, without a reward. -/
def coinbase (height : UInt8) : CTransaction :=
  ⟨[⟨COutPoint.null, ⟨[0x50 + height, 0]⟩, 0xffffffff, []⟩], [⟨0, ⟨[]⟩⟩], 3, 0, 0⟩

/-- A coinstake that spends an output and pays the rest of the outputs. -/
def mkCoinstake (prevout : COutPoint) (vout : List CTxOut) : CTransaction :=
  ⟨[⟨prevout, ⟨[]⟩, 0xffffffff, []⟩], ⟨0, ⟨[]⟩⟩ :: vout, 3, 0, 0⟩

/-- An output of the genesis transaction. -/
def genesisPrevout (n : UInt32) : COutPoint := ⟨genesisTx.getHash hash256, n⟩

/-- A block with its Merkle root set. -/
def mkBlock (height : UInt8) (prev : Uint256) (time : UInt32) (vtx : List CTransaction)
    (vClaim : List CClaim) : CBlock :=
  { nVersion := 2
    hashPrevBlock := prev
    hashMerkleRoot := (computeMerkleRoot hash256
      ((coinbase height :: vtx).map (CTransaction.getHash hash256))).1
    nTime := time
    nBits := 0
    nNonce := 0
    vtx := coinbase height :: vtx
    vchBlockSig := [1]
    vClaim := vClaim }

/-- The state in which a node connects a block on top of the state it has reached. -/
def onTop (reached : ConnectState) (height : ℕ) (block : CBlock) : ConnectState :=
  { reached with
    pindex := { CBlockIndex.ofHeader (block.getHash hash256) height block.toCBlockHeader with
      nFlags := if block.isProofOfStake then CBlockIndex.BLOCK_PROOF_OF_STAKE else 0 }
    block := block }

section

variable (reached : ConnectState) (height : ℕ) (block : CBlock)
include reached height block

@[simp] theorem g_claims_onTop : (onTop reached height block).g_claims = reached.g_claims := rfl

@[simp] theorem block_onTop : (onTop reached height block).block = block := rfl

@[simp] theorem nClaims_onTop : (onTop reached height block).pindex.nClaims = ∅ := rfl

end

/-- A node that has not connected anything. -/
def blank : ConnectState where
  g_claims := ∅
  setStakeSeen := []
  g_claimindex := ∅
  pindex := CBlockIndex.ofHeader 0 0 genesisBlock.toCBlockHeader
  view := ⟨fun _ => none, 0⟩
  block := genesisBlock

/-- Connect a block on top of a chain. -/
def connect (env : Env) (chain : IndexChain) (reached : ConnectState) (block : CBlock) :
    Outcome ConnectState BlockFail Unit :=
  connectBlock env stakeKernel ordinary chain false (onTop reached chain.length block)

/-- The state and the chain after connecting blocks, the last one first in the list. -/
def reach (env : Env) : List CBlock → ConnectState × IndexChain
  | [] => (blank, [])
  | block :: rest =>
    let reached := (connect env (reach env rest).2 (reach env rest).1 block).state
    (reached, reached.pindex :: (reach env rest).2)

/-- The state in which a node connects the block after the genesis block. -/
def second (env : Env) (block : CBlock) : ConnectState :=
  onTop (reach env [genesisBlock]).1 1 block

/-- The chain that the block after the genesis block is connected to. -/
def genesisChain (env : Env) : IndexChain := (reach env [genesisBlock]).2

/-- The tip after connecting blocks, the last one first in the list. -/
def chainstate (env : Env) (blocks : List CBlock) : Chainstate where
  m_chain := (reach env blocks).2
  coinsTip := (reach env blocks).1.view
  g_claims := (reach env blocks).1.g_claims
  setStakeSeen := (reach env blocks).1.setStakeSeen
  g_claimindex := (reach env blocks).1.g_claimindex

/-- All the blocks are accepted, one on top of the other. -/
def accepts (env : Env) : List CBlock → Bool
  | [] => true
  | block :: rest =>
    accepts env rest && passed (connect env (reach env rest).2 (reach env rest).1 block).result

/-- The pool of a node that has received one claim from a peer. -/
def learned (env : Env) (claim : CClaim) : ClaimPool :=
  (ClaimPool.insertClaim env ∅ (Claim.ofCClaim env claim)).1

/-! ## Payouts -/

def genesisHash : Uint256 := genesisBlock.getHash hash256

/-- A block that spends one genesis output, makes the given payouts and keeps the rest
for the genesis key. -/
def payBlock (height : UInt8) (prev : Uint256) (time : UInt32) (n : UInt32) (rest : Int64)
    (payouts : List CTxOut) (vClaim : List CClaim) : CBlock :=
  mkBlock height prev time
    [mkCoinstake (genesisPrevout n) (⟨rest, genesisPubKey⟩ :: payouts)] vClaim

/-- A block that pays ten coins to a claim on the snapshot. -/
def snapshotBlock : CBlock :=
  payBlock 1 genesisHash 1700000500 0 99990000000 [⟨10000000, payToKeyHash 2⟩]
    [mkClaim (payToKeyHash 1) (payToKeyHash 2)]

/-- A block that pays a Bitcoin claim what its address is worth. -/
def btcBlock : CBlock :=
  payBlock 1 genesisHash 1700000600 0 99900000000 [⟨100000000, payToKeyHash 4⟩]
    [mkClaim (payToKeyHash 3) (payToKeyHash 4)]

/-- A block that pays the address of a key twice, as the key and as its hash. -/
def twoSourcesBlock : CBlock :=
  payBlock 1 genesisHash 1700000600 0 99800000000
    [⟨100000000, payToKeyHash 4⟩, ⟨100000000, payToKeyHash 5⟩]
    [mkClaim (payToKeyHash 3) (payToKeyHash 4), mkClaim (payToPubKey 3) (payToKeyHash 5)]

/-- A block that pays a Bitcoin claim the full reward. -/
def rewardBlock : CBlock :=
  payBlock 1 genesisHash 1700000600 0 50000000000 [⟨50000000000, payToKeyHash 4⟩]
    [mkClaim (payToKeyHash 3) (payToKeyHash 4)]

/-- A block with a claim and an output that pays neither it nor the genesis key. -/
def strayBlock : CBlock :=
  payBlock 1 genesisHash 1700000500 0 99990000000 [⟨10000000, payToKeyHash 5⟩]
    [mkClaim (payToKeyHash 1) (payToKeyHash 2)]

/-- A block without claims that pays half of a genesis output to a key hash. -/
def unclaimedBlock : CBlock :=
  payBlock 1 genesisHash 1700000500 0 50000000000 [⟨50000000000, payToKeyHash 2⟩] []

/-- A block that spends all the outputs of the genesis transaction. -/
def lastGenesisBlock : CBlock :=
  mkBlock 1 genesisHash 1700000500
    [⟨[0, 1, 2].map fun n => ⟨genesisPrevout n, ⟨[]⟩, 0xffffffff, []⟩,
      [⟨0, ⟨[]⟩⟩, ⟨300000000000, genesisPubKey⟩], 3, 0, 0⟩] []

/-- A transaction that spends a genesis output and has a time after the lock. -/
def lateTx : CTransaction :=
  ⟨[⟨genesisPrevout 1, ⟨[]⟩, 0xffffffff, []⟩], [⟨99000000000, payToKeyHash 2⟩], 2, 1700002000, 0⟩

/-- A block from before the end of the lock with a transaction from after it. -/
def lateTxBlock : CBlock :=
  mkBlock 1 genesisHash 1700000500 [mkCoinstake (genesisPrevout 0) [genesisOut], lateTx] []

end Patchcoin.SmallNet
