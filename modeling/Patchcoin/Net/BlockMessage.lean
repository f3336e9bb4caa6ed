import Patchcoin.Net.CompactBlock
import Patchcoin.Consensus.CheckBlockSteps

/-!
# Blocks

The handler of `BLOCK`.  A block is not processed at once: it is put into a queue
under its parent, and then the queue is worked off as far as possible, on behalf of
whichever message came last.

The queue is a map with pointers to block index entries as its keys.  A block with an
unknown parent has the null pointer as its key, which comes first in the order of the
map.
-/

namespace Patchcoin

/-- A message about a block. -/
inductive Message where
  | block (block : CBlock)
  | cmpctBlock (cmpctblock : CompactBlock)
  | blockTxn (blockhash : Uint256) (txn : List CTransaction)

/-- A message, and what happened to the node since the last one: blocks were requested, other
messages and threads changed what it knows about blocks, and `VERSION` and `HEADERS` changed
the temperatures of its peers. -/
structure Turn where
  requests : List (NodeId × Uint256)
  meanwhile : ChainMan → ChainMan
  temperatures : (NetAddr → Option Int32) → NetAddr → Option Int32
  call : NetCall
  message : Message

/-- A node that handles messages, until it stops. -/
structure NetNode where
  st : NetState
  stop : Option Stop

/-! ## The queue -/

/-- What the next round of the loop finds in the queue. -/
inductive Scan where
  | nothing
  | nullPointer
  /-- a block that waited for too long -/
  | expired (key : Option Uint256) (we : WaitElement)
  /-- a block whose parent failed -/
  | rejected (key : Option Uint256) (we : WaitElement)
  | select (key : Option Uint256) (we : WaitElement)

/-- A pointer as a number; null is zero. -/
def keyAddress (address : Uint256 → ℕ) : Option Uint256 → ℕ
  | none => 0
  | some hash => address hash + 1

/-- `mapBlocksWait[key] = we`. -/
def insertWait (address : Uint256 → ℕ) (key : Option Uint256) (we : WaitElement) :
    WaitQueue → WaitQueue
  | [] => [(key, we)]
  | (key', we') :: rest =>
    if key' = key then (key, we) :: rest
    else if keyAddress address key < keyAddress address key' then
      (key, we) :: (key', we') :: rest
    else (key', we') :: insertWait address key we rest

/-- `mapBlocksWait.find(key)`. -/
def findWait (key : Option Uint256) (queue : WaitQueue) : Option WaitElement :=
  (queue.find? fun pair => pair.1 == key).map Prod.snd

/-- `mapBlocksWait.erase(key)`. -/
def NetState.eraseWait (st : NetState) (key : Option Uint256) : NetState :=
  { st with mapBlocksWait := st.mapBlocksWait.filter fun pair => pair.1 != key }

/-- The scan of the queue.  Entries of the block index are never removed. -/
def scanWait (index : BlockMap) (nTimeNow : ℕ) : WaitQueue → Scan
  | [] => .nothing
  | (key, we) :: rest =>
    if we.time + 60 < nTimeNow then .expired key we
    else match key with
      | none => .nullPointer
      | some hash =>
        match index hash with
        | none => scanWait index nTimeNow rest
        | some pindexPrev =>
          if pindexPrev.isValid BLOCK_VALID_TRANSACTIONS then .select key we
          else if pindexPrev.hasFailed then .rejected key we
          else scanWait index nTimeNow rest

/-- The next round of the loop: first the block that waits for the entry that was once
the tip, then the scan. -/
def nextWait (nTimeNow : ℕ) (st : NetState) : Scan :=
  match st.pindexLastAccepted with
  | none => scanWait st.man.index nTimeNow st.mapBlocksWait
  | some hash =>
    match findWait (some hash) st.mapBlocksWait with
    | some we => .select (some hash) we
    | none => scanWait st.man.index nTimeNow st.mapBlocksWait

section

variable (env : Env) (rules : HeaderRules) (stake : StakeRules) (address : Uint256 → ℕ)

/-- The loop over the queue.  Every round but the last takes a block out of it. -/
def drainWait (call : NetCall) (min_pow_checked : Bool) :
    ℕ → ℕ → NetState → Outcome NetState Stop Unit
  | 0, _, st => .pass st
  | fuel + 1, processed, st =>
    match nextWait call.nTimeNow st with
    | .nothing => .pass st
    | .nullPointer => .fail st .nullPointer
    | .expired key we => drainWait call min_pow_checked fuel processed
        ((st.eraseWait key).removeBlockRequest (we.pblock.getHash env.host.hash256) none)
    | .rejected key we => drainWait call min_pow_checked fuel processed
        ((st.eraseWait key).removeBlockRequest (we.pblock.getHash env.host.hash256) call.peer)
    | .select key we =>
      let hash := we.pblock.getHash env.host.hash256
      let forceProcessing := st.isBlockRequested hash
      (processBlock env rules stake (call.processing processed) forceProcessing min_pow_checked
        we.pblock ((st.eraseWait key).removeBlockRequest hash call.peer)).andThen
          fun _ st => drainWait call min_pow_checked fuel (processed + 1) st

/-! ## The handler -/

/-- The block object after `IsBlockMutated`, and whether it is mutated.  Blocks with an
unknown parent are not looked at. -/
def mutation (index : BlockMap) (block : CBlock) : CBlock × Bool :=
  match index block.hashPrevBlock with
  | none => (block, false)
  | some prev_block =>
    isBlockMutated env block (isBTC16BIPsEnabled env.params prev_block.nTime.toNat)

/-- The tests on a block that was not requested: whether it is taken into the queue. -/
def unrequested (call : NetCall) (block : CBlock) (st : NetState) : Outcome NetState Stop Bool :=
  let hot := overheated (st.temperature call.addr)
  let cooled := if hot then resetTemperature else st.temperature call.addr
  if hot && env.params.network != .test then ⟨st.setTemperature call.addr cooled, .ok false⟩
  else
    let nPoSTemperature := if block.isProofOfStake && !call.isInitialBlockDownload then cooled + 1
      else cooled
    let st := st.setTemperature call.addr nPoSTemperature
    match st.man.index block.hashPrevBlock with
    | none => .fail st .nullPointer
    | some prev_block =>
      if prev_block.isValid BLOCK_VALID_TRANSACTIONS then ⟨st, .ok true⟩
      else ⟨st.removeBlockRequest (block.getHash env.host.hash256) none, .ok false⟩

/-- Whether a block is taken into the queue; a block that was requested always is. -/
def takeIn (call : NetCall) (block : CBlock) (st : NetState) : Outcome NetState Stop Bool :=
  if st.isBlockRequested (block.getHash env.host.hash256) then ⟨st, .ok true⟩
  else unrequested env call block st

/-- The node with a block in its queue. -/
def NetState.enqueue (st : NetState) (nTimeNow : ℕ) (block : CBlock) : NetState :=
  let key := (st.man.index block.hashPrevBlock).map fun _ => block.hashPrevBlock
  { st with
    mapBlocksWait := insertWait address key ⟨block, nTimeNow⟩ st.mapBlocksWait
    pindexLastAccepted := some (st.pindexLastAccepted.getD st.man.tip) }

/-- The work on a block and its parent reaches the threshold. -/
def enoughWork (man : ChainMan) (block : CBlock) : Bool :=
  ((man.index block.hashPrevBlock).map fun prev_block =>
    decide (getAntiDoSWorkThreshold rules man ≤
      (prev_block.nChainTrust + calculateHeadersWork block.toCBlockHeader) % 2 ^ 256)).getD false

/-- The handler of `BLOCK`. -/
def blockMessage (call : NetCall) (block : CBlock) (st : NetState) : Outcome NetState Stop Unit :=
  if call.loadingBlocks then .pass st
  else
    let checked := mutation env st.man.index block
    if checked.2 then .pass (st.removeBlockRequest (block.getHash env.host.hash256) call.peer)
    else
      let min_pow_checked := enoughWork rules st.man checked.1
      (takeIn env call checked.1 st).andThen fun admitted st =>
        if admitted then
          let queued := st.enqueue address call.nTimeNow checked.1
          drainWait env rules stake call min_pow_checked (queued.mapBlocksWait.length + 1) 0 queued
        else .pass st

/-! ## Runs -/

/-- The handler of a message.  A block that was just read remembers no checks. -/
def handle (call : NetCall) : Message → NetState → Outcome NetState Stop Unit
  | .block block => blockMessage env rules stake address call block.content
  | .cmpctBlock cmpctblock => cmpctBlock env rules stake call cmpctblock
  | .blockTxn blockhash txn => blockTxn env rules stake call blockhash txn

/-- `BlockRequested` for a whole block. -/
def NetState.request (st : NetState) (peer : NodeId) (hash : Uint256) : NetState :=
  match st.requestFrom hash peer with
  | some _ => st
  | none => { st with mapBlocksInFlight := st.mapBlocksInFlight ++ [⟨hash, peer, none⟩] }

/-- The node when a message arrives. -/
def NetState.awaken (st : NetState) (turn : Turn) : NetState :=
  turn.requests.foldl (fun st request => st.request request.1 request.2)
    { st with
      man := { turn.meanwhile st.man with blockFiles := st.man.blockFiles }
      mapPoSTemperature := turn.temperatures st.mapPoSTemperature }

/-- Whether a node is stopped.  Exceptions are caught by the message loop. -/
def stopAfter : Except Stop Unit → Option Stop
  | .ok () => none
  | .error .thrown => none
  | .error stop => some stop

/-- A turn of a node. -/
def NetNode.turn (node : NetNode) (turn : Turn) : NetNode :=
  match node.stop with
  | some _ => node
  | none =>
    let handled := handle env rules stake address turn.call turn.message (node.st.awaken turn)
    ⟨handled.state, stopAfter handled.result⟩

end

/-- A node that was just started. -/
def NetNode.start (man : ChainMan) : NetNode where
  st :=
    { man
      mapPoSTemperature := fun _ => none
      mapBlocksInFlight := []
      mapBlocksWait := []
      pindexLastAccepted := none
      activated := [] }
  stop := none

end Patchcoin
