import Patchcoin.Net.BlockMessage
import Patchcoin.SmallStake

/-!
# Peers of the small network

A node of the small network that has accepted the genesis block and has one peer.
The pools of the node are empty, so that a compact block comes with all its
transactions or misses them all.
-/

namespace Patchcoin.SmallNet

/-- The header of a block after the genesis block. -/
def mintedHeader (time : UInt32) : CBlockHeader :=
  (mintedBlock time (genesisPrevout 0)).toCBlockHeader

/-- A node that has accepted the genesis block and heard of nothing since. -/
def genesisNet : NetState where
  man := genesisMan
  mapPoSTemperature _ := none
  mapBlocksInFlight := []
  mapBlocksWait := []
  pindexLastAccepted := none
  activated := []

def netCall : NetCall where
  peer := 1
  addr := 1
  loadingBlocks := false
  isInitialBlockDownload := false
  canDirectFetch := true
  nTimeNow := 1700100000
  now := 1700100000
  asksAgain := false
  initData cmpctblock := (.READ_STATUS_OK,
    { header := cmpctblock.header
      vchBlockSig := cmpctblock.vchBlockSig
      vClaim := cmpctblock.vClaim
      txn_available := [none, none] })
  lastAcceptedHeader := 0
  processing _ := ⟨acceptCall, fun man _ => man⟩

/-- A block whose parent nobody knows. -/
def orphan : CBlock :=
  { mintedBlock 1700001000 (genesisPrevout 0) with hashPrevBlock := 77 }

/-- `VERSION` gives a new peer a quarter of the temperature at which it is disconnected. -/
def greeted (temperatures : NetAddr → Option Int32) (addr : NetAddr) : Option Int32 :=
  some ((temperatures addr).getD (MAX_CONSECUTIVE_POS_HEADERS / 4))

/-- A message of a peer that has sent its version before. -/
def turnOf (requests : List (NodeId × Uint256)) (message : Message) : Turn :=
  ⟨requests, id, greeted, netCall, message⟩

/-- The orphan arrives, after the given requests. -/
def orphanTurn (requests : List (NodeId × Uint256)) : Turn := turnOf requests (.block orphan)

/-- The block after the genesis block. -/
def compactedBlock : CBlock := mintedBlock 1700001000 (genesisPrevout 0)

/-- A compact block with the given signature arrives, and after it its transactions. -/
def compactTurns (vchBlockSig : List UInt8) : List Turn :=
  [turnOf [] (.cmpctBlock ⟨compactedBlock.toCBlockHeader, vchBlockSig, []⟩),
    turnOf [] (.blockTxn (compactedBlock.getHash hash256) compactedBlock.vtx)]

end Patchcoin.SmallNet
