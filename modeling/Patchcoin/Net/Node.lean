import Patchcoin.Chain.Accept

/-!
# A node and its peers

What `PeerManagerImpl` keeps between messages, as far as the handlers of blocks,
compact blocks and their missing transactions read and write it: the block index,
the temperature of each address, the blocks in flight with their partial
reconstructions, and the blocks that wait for their parents.

A handler ends by returning, or it stops: at a null pointer, at a failed assertion,
or because a function it calls throws or ends the process.  An exception is caught
by the message loop, so that a node goes on after it with what was written until
then; after the other stops there is no node any more.

Peers are not answered or punished here, and the sources of blocks are not kept.
-/

namespace Patchcoin

abbrev NodeId := ℕ

/-- The address of a peer, under which its temperature is kept. -/
abbrev NetAddr := ℕ

def MAX_CONSECUTIVE_POS_HEADERS : Int32 := 500000
def POW_HEADER_COOLING : Int32 := 70
def MAX_CMPCTBLOCKS_INFLIGHT_PER_BLOCK : ℕ := 3
def MAX_BLOCKS_IN_TRANSIT_PER_PEER : ℕ := 16

/-- `CBlockHeader::SetNull`. -/
def CBlockHeader.null : CBlockHeader where
  nVersion := 6
  hashPrevBlock := 0
  hashMerkleRoot := 0
  nTime := 0
  nBits := 0
  nNonce := 0
  nFlags := 0

def CBlockHeader.isNull (header : CBlockHeader) : Bool := header.nBits == 0

/-- `PartiallyDownloadedBlock`. -/
structure PartiallyDownloadedBlock where
  header : CBlockHeader
  vchBlockSig : List UInt8
  vClaim : List CClaim
  txn_available : List (Option CTransaction)

/-- A block that was requested from a peer. -/
structure QueuedBlock where
  hash : Uint256
  peer : NodeId
  partialBlock : Option PartiallyDownloadedBlock

/-- `WaitElement`. -/
structure WaitElement where
  pblock : CBlock
  time : ℕ

/-- `mapBlocksWait`, in the order of its keys, which are pointers to parents or null. -/
abbrev WaitQueue := List (Option Uint256 × WaitElement)

/-- What a node keeps between messages. -/
structure NetState where
  man : ChainMan
  mapPoSTemperature : NetAddr → Option Int32
  /-- in the order in which the blocks were requested -/
  mapBlocksInFlight : List QueuedBlock
  mapBlocksWait : WaitQueue
  /-- a variable of the handler of blocks that outlives its calls -/
  pindexLastAccepted : Option Uint256
  /-- the block objects that were handed to `ActivateBestChain`, the last one first -/
  activated : List CBlock

/-- How a handler stops before it returns. -/
inductive Stop where
  | nullPointer
  | assertion
  | thrown
  | aborted
  deriving DecidableEq, Repr

/-- What a block meets on its way through `ProcessNewBlock`. -/
structure Processing where
  call : AcceptCall
  /-- `ActivateBestChain`, with the block object at hand -/
  activateBestChain : ChainMan → CBlock → ChainMan

namespace NetState

/-- `mapPoSTemperature[addr]`. -/
def temperature (st : NetState) (addr : NetAddr) : Int32 := (st.mapPoSTemperature addr).getD 0

def setTemperature (st : NetState) (addr : NetAddr) (nPoSTemperature : Int32) : NetState :=
  { st with mapPoSTemperature := Function.update st.mapPoSTemperature addr (some nPoSTemperature) }

/-- `RemoveBlockRequest`, from one peer or from all of them. -/
def removeBlockRequest (st : NetState) (hash : Uint256) (from_peer : Option NodeId) : NetState :=
  { st with mapBlocksInFlight := st.mapBlocksInFlight.filter fun queued =>
      !(queued.hash == hash && (from_peer.map fun peer => queued.peer == peer).getD true) }

/-- The requests of a block. -/
def inFlight (st : NetState) (hash : Uint256) : List QueuedBlock :=
  st.mapBlocksInFlight.filter fun queued => queued.hash == hash

/-- `IsBlockRequested`. -/
def isBlockRequested (st : NetState) (hash : Uint256) : Bool := !(st.inFlight hash).isEmpty

end NetState

section

variable (env : Env) (rules : HeaderRules)

/-! ## Headers -/

/-- `CalculateHeadersWork` of one header. -/
def calculateHeadersWork (header : CBlockHeader) : ℕ :=
  getBlockTrust (CBlockIndex.ofHeader 0 0 header)

/-- `GetAntiDoSWorkThreshold`. -/
def getAntiDoSWorkThreshold (man : ChainMan) : ℕ :=
  let near_chaintip_work := match man.index man.tip with
    | none => 0
    | some tip => tip.nChainTrust -
        min (144 * getBlockTrust tip.toCBlockIndex % 2 ^ 256) tip.nChainTrust
  max near_chaintip_work rules.nMinimumChainWork

/-- The loop of `ProcessNewBlockHeaders`, with the last entry that was accepted. -/
def processHeaders (now : ℕ) (min_pow_checked : Bool) (nCooling : Int32) :
    List CBlockHeader → Option IndexEntry → ChainMan × Int32 →
      Outcome (ChainMan × Int32) BlockFail (Option IndexEntry)
  | [], ppindex, st => ⟨st, .ok ppindex⟩
  | header :: rest, _, (man, nPoSTemperature) =>
    let accepted := acceptBlockHeader env rules now header min_pow_checked man
    match accepted.result with
    | .error failure => .fail (accepted.state, nPoSTemperature + POW_HEADER_COOLING) failure
    | .ok pindex => processHeaders now min_pow_checked nCooling rest (some pindex)
        (accepted.state, if isProofOfStakeHeader header then nPoSTemperature + 1
          else max (nPoSTemperature - nCooling) 0)

/-- `ProcessNewBlockHeaders`: the node, the temperature, and the last accepted entry. -/
def processNewBlockHeaders (now : ℕ) (lastAcceptedHeader : Uint256) (headers : List CBlockHeader)
    (min_pow_checked : Bool) (man : ChainMan) (nPoSTemperature : Int32) :
    Outcome (ChainMan × Int32) BlockFail (Option IndexEntry) :=
  let detached := (headers.head?.map fun header =>
    decide (header.hashPrevBlock ≠ lastAcceptedHeader)).getD false && lastAcceptedHeader != 0
  if detached then
    processHeaders env rules now min_pow_checked 0 headers none
      (man, nPoSTemperature + Int32.ofNat ((18 + headers.length) / 10))
  else processHeaders env rules now min_pow_checked POW_HEADER_COOLING headers none
    (man, nPoSTemperature)

/-- A temperature that is too high is reset; the peer is then given up, except on the
test network. -/
def overheated (nPoSTemperature : Int32) : Bool :=
  decide (MAX_CONSECUTIVE_POS_HEADERS ≤ nPoSTemperature)

def resetTemperature : Int32 := MAX_CONSECUTIVE_POS_HEADERS * 3 / 4

/-! ## Blocks -/

variable (stake : StakeRules)

/-- Whether `AcceptBlock` comes to the point where the block is written (`fNewBlock`). -/
def isNewBlock (call : AcceptCall) (st : AcceptState) : Bool :=
  let checked := checkBlock env true true true st.block
  let tests := acceptBlockTests env rules call { st with block := checked.state }
  match checked.result, tests.result with
  | .ok (), .ok (some pindex) =>
    !readsOutOfBounds env stake call tests.state.man pindex tests.state.block &&
      passed ((stakeCheck (call.kernel env stake tests.state.man)
        (tests.state.man.index.ancestors pindex) tests.state.man.setStakeSeen
        pindex.toCBlockIndex tests.state.block).map fun _ => ())
  | _, _ => false

/-- How a failure of `ProcessNewBlock` ends the handler, if it does. -/
def stopOf : KernelFail → Option Stop
  | .outOfBounds => some .aborted
  | .refused .aborted => some .aborted
  | .refused .thrown => some .thrown
  | .refused _ => none

/-- `ProcessBlock`. -/
def processBlock (processing : Processing) (force_processing min_pow_checked : Bool)
    (block : CBlock) (st : NetState) : Outcome NetState Stop Unit :=
  let call := { processing.call with fRequested := force_processing, min_pow_checked }
  let start : AcceptState := ⟨st.man, block⟩
  let processed := processNewBlock env rules stake call start
  let hash := block.getHash env.host.hash256
  let finish (st : NetState) : NetState :=
    if isNewBlock env rules stake call start then st.removeBlockRequest hash none else st
  match processed.result with
  | .ok _ =>
    let man := { processing.activateBestChain processed.state.man processed.state.block with
      blockFiles := processed.state.man.blockFiles }
    .pass (finish { st with man, activated := processed.state.block :: st.activated })
  | .error failure =>
    match stopOf failure with
    | some stop => .fail { st with man := processed.state.man } stop
    | none => .pass (finish { st with man := processed.state.man })

end

end Patchcoin
