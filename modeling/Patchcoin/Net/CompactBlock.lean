import Patchcoin.Net.Node

/-!
# Compact blocks

The handlers of `CMPCTBLOCK` and `BLOCKTXN`.  A compact block is a header with the
signature and the claims of the block, but with transactions given by short hashes
only.  The node looks for the transactions in its memory pool; those it lacks it
asks for, and the peer sends them in a second message.

The header is accepted first.  When `ProcessNewBlockHeaders` fails, the handler only
returns if the failure is marked in the state, and then takes for granted that there
is an entry for the header.
-/

namespace Patchcoin

/-- `CBlockHeaderAndShortTxIDs`, with the transactions left to `InitData`. -/
structure CompactBlock where
  header : CBlockHeader
  vchBlockSig : List UInt8
  vClaim : List CClaim

/-- `ReadStatus`. -/
inductive ReadStatus where
  | READ_STATUS_OK
  | READ_STATUS_INVALID
  | READ_STATUS_FAILED
  | READ_STATUS_CHECKBLOCK_FAILED
  deriving DecidableEq, Repr

/-- The circumstances of a message. -/
structure NetCall where
  peer : NodeId
  addr : NetAddr
  loadingBlocks : Bool
  isInitialBlockDownload : Bool
  canDirectFetch : Bool
  /-- `GetTime()` -/
  nTimeNow : ℕ
  /-- the adjusted time -/
  now : ℕ
  /-- whether the peer is asked for transactions although another peer was asked first -/
  asksAgain : Bool
  /-- `InitData` on a new partial block: what short ids, prefilled transactions and the
  pools give -/
  initData : CompactBlock → ReadStatus × PartiallyDownloadedBlock
  /-- the last header that the peer was known to have -/
  lastAcceptedHeader : Uint256
  /-- what the blocks meet that are processed on behalf of the message -/
  processing : ℕ → Processing

section

variable (env : Env) (rules : HeaderRules) (stake : StakeRules)

/-! ## Filling a block -/

/-- The transactions of a block, with the missing ones put in, all of which are needed. -/
def fillTransactions : List (Option CTransaction) → List CTransaction → Option (List CTransaction)
  | [], [] => some []
  | [], _ :: _ => none
  | some tx :: rest, vtx_missing => (fillTransactions rest vtx_missing).map (tx :: ·)
  | none :: _, [] => none
  | none :: rest, tx :: vtx_missing => (fillTransactions rest vtx_missing).map (tx :: ·)

/-- The block object that `FillBlock` makes, before it is checked. -/
def PartiallyDownloadedBlock.assemble (partialBlock : PartiallyDownloadedBlock)
    (vtx : List CTransaction) : CBlock :=
  { toCBlockHeader := partialBlock.header
    vtx
    vchBlockSig := partialBlock.vchBlockSig
    vClaim := partialBlock.vClaim }

/-- `FillBlock`: the block, if there is one, and the status.  `CheckBlock` leaves its
marks on the block object. -/
def fillBlock (partialBlock : PartiallyDownloadedBlock) (vtx_missing : List CTransaction) :
    Option CBlock × ReadStatus :=
  if partialBlock.header.isNull then (none, .READ_STATUS_INVALID)
  else match fillTransactions partialBlock.txn_available vtx_missing with
    | none => (none, .READ_STATUS_INVALID)
    | some vtx =>
      let checked := checkBlock env true true true (partialBlock.assemble vtx)
      (some checked.state,
        match checked.result with
        | .ok () => .READ_STATUS_OK
        | .error (.invalid .BLOCK_MUTATED _) => .READ_STATUS_FAILED
        | .error _ => .READ_STATUS_CHECKBLOCK_FAILED)

/-- A partial block after `FillBlock`, which cannot be filled again. -/
def PartiallyDownloadedBlock.cleared (partialBlock : PartiallyDownloadedBlock) :
    PartiallyDownloadedBlock :=
  { partialBlock with header := CBlockHeader.null, txn_available := [] }

/-! ## Requests -/

/-- Replace the partial block of the request of a block from a peer. -/
def NetState.setPartial (st : NetState) (hash : Uint256) (peer : NodeId)
    (partialBlock : PartiallyDownloadedBlock) : NetState :=
  { st with mapBlocksInFlight := st.mapBlocksInFlight.map fun queued =>
      if queued.hash == hash && queued.peer == peer then
        { queued with partialBlock := some partialBlock }
      else queued }

/-- The request of a block from a peer. -/
def NetState.requestFrom (st : NetState) (hash : Uint256) (peer : NodeId) : Option QueuedBlock :=
  (st.inFlight hash).find? fun queued => queued.peer == peer

/-- Whether a peer is the first that a block was requested from, or could be. -/
def NetState.firstInFlight (st : NetState) (hash : Uint256) (peer : NodeId) : Bool :=
  ((st.inFlight hash).head?.map fun queued => queued.peer == peer).getD true

/-- `BlockRequested` for a compact block: nothing if the peer has already sent one. -/
def NetState.blockRequested (st : NetState) (hash : Uint256) (peer : NodeId)
    (partialBlock : PartiallyDownloadedBlock) : Option NetState :=
  match st.requestFrom hash peer with
  | none => some { st with mapBlocksInFlight :=
      st.mapBlocksInFlight ++ [⟨hash, peer, some partialBlock⟩] }
  | some queued =>
    match queued.partialBlock with
    | none => some (st.setPartial hash peer partialBlock)
    | some _ => none

/-! ## The handlers -/

/-- The handler of `BLOCKTXN`. -/
def blockTxn (call : NetCall) (blockhash : Uint256) (txn : List CTransaction) (st : NetState) :
    Outcome NetState Stop Unit :=
  if call.loadingBlocks then .pass st
  else
    match (st.requestFrom blockhash call.peer).bind QueuedBlock.partialBlock with
    | none => .pass st
    | some partialBlock =>
      match fillBlock env partialBlock txn with
      | (some _, .READ_STATUS_FAILED) =>
        -- the whole block is asked for, and the request stays
        if st.firstInFlight blockhash call.peer then
          .pass (st.setPartial blockhash call.peer partialBlock.cleared)
        else .pass (st.removeBlockRequest blockhash call.peer)
      | (some block, .READ_STATUS_OK) | (some block, .READ_STATUS_CHECKBLOCK_FAILED) =>
        processBlock env rules stake (call.processing 0) true true block
          (st.removeBlockRequest blockhash call.peer)
      | _ => .pass (st.removeBlockRequest blockhash call.peer)

/-- The reconstruction of a block that other peers were asked for, without a request. -/
def reconstructOptimistically (call : NetCall) (cmpctblock : CompactBlock) (pindex : IndexEntry)
    (st : NetState) : Outcome NetState Stop Unit :=
  match call.initData cmpctblock with
  | (.READ_STATUS_OK, tempBlock) =>
    match fillBlock env tempBlock [] with
    | (some block, .READ_STATUS_OK) =>
      let hash := block.getHash env.host.hash256
      (processBlock env rules stake (call.processing 0) true true block st).andThen fun _ st =>
        if ((st.man.index pindex.hashBlock).map fun pindex =>
            pindex.isValid BLOCK_VALID_TRANSACTIONS).getD false then
          .pass (st.removeBlockRequest hash none)
        else .pass st
    | _ => .pass st
  | _ => .pass st

/-- A compact block whose missing transactions are asked for. -/
def requestMissing (call : NetCall) (cmpctblock : CompactBlock) (hash : Uint256) (st : NetState) :
    Outcome NetState Stop Unit :=
  let first_in_flight := st.firstInFlight hash call.peer
  let (status, partialBlock) := call.initData cmpctblock
  match st.blockRequested hash call.peer partialBlock with
  | none => .pass st
  | some st =>
    match status with
    | .READ_STATUS_INVALID => .pass (st.removeBlockRequest hash call.peer)
    | .READ_STATUS_OK =>
      if partialBlock.txn_available.all Option.isSome then
        blockTxn env rules stake call hash [] st
      else if first_in_flight || call.asksAgain then .pass st
      else .pass (st.removeBlockRequest hash call.peer)
    | _ =>
      if first_in_flight then .pass st
      else .pass (st.removeBlockRequest hash call.peer)

/-- `ProcessHeadersMessage` for the header of a compact block: the header is known by then,
and only the temperature of the peer changes. -/
def headersMessage (call : NetCall) (header : CBlockHeader) (st : NetState) :
    Outcome NetState Stop Unit :=
  let processed := processNewBlockHeaders env rules call.now call.lastAcceptedHeader [header] true
    st.man (st.temperature call.addr)
  let st := { st with man := processed.state.1 }.setTemperature call.addr processed.state.2
  match processed.result with
  | .error .aborted => .fail st .aborted
  | _ => .pass st

/-- The handler of `CMPCTBLOCK` after the header has its entry. -/
def compactBlockBody (call : NetCall) (cmpctblock : CompactBlock) (pindex : IndexEntry)
    (st : NetState) : Outcome NetState Stop Unit :=
  let hash := pindex.hashBlock
  let already_in_flight := (st.inFlight hash).length
  let requested_block_from_this_peer := (st.requestFrom hash call.peer).isSome
  let tip := st.man.index st.man.tip
  if pindex.nStatus.haveData then .pass st
  else if (tip.map fun tip =>
    decide (pindex.nChainTrust ≤ tip.nChainTrust)).getD false then .pass st
  else if already_in_flight = 0 ∧ call.canDirectFetch = false then .pass st
  else if (pindex.nHeight : ℤ) ≤ (tip.map fun tip => (tip.nHeight : ℤ)).getD (-1) + 2 then
    if (already_in_flight < MAX_CMPCTBLOCKS_INFLIGHT_PER_BLOCK ∧
        (st.mapBlocksInFlight.filter fun queued => queued.peer == call.peer).length <
          MAX_BLOCKS_IN_TRANSIT_PER_PEER) ∨ requested_block_from_this_peer then
      requestMissing env rules stake call cmpctblock hash st
    else reconstructOptimistically env rules stake call cmpctblock pindex st
  else if requested_block_from_this_peer then .pass st
  else headersMessage env rules call cmpctblock.header st

/-- The handler of `CMPCTBLOCK` after the header was processed, with the entry that the
header got, if it got one. -/
def compactBlockAccepted (call : NetCall) (cmpctblock : CompactBlock)
    (pindex : Option IndexEntry) (st : NetState) : Outcome NetState Stop Unit :=
  let hot := overheated (st.temperature call.addr)
  let st := if hot then st.setTemperature call.addr resetTemperature else st
  if hot && env.params.network != .test then .pass st
  else match pindex with
    -- assert(pindex)
    | none => .fail st .assertion
    | some pindex => compactBlockBody env rules stake call cmpctblock pindex st

/-- The handler of `CMPCTBLOCK`. -/
def cmpctBlock (call : NetCall) (cmpctblock : CompactBlock) (st : NetState) :
    Outcome NetState Stop Unit :=
  if call.loadingBlocks then .pass st
  else match st.man.index cmpctblock.header.hashPrevBlock with
    | none => .pass st
    | some prev_block =>
      if (prev_block.nChainTrust + calculateHeadersWork cmpctblock.header) % 2 ^ 256 <
          getAntiDoSWorkThreshold rules st.man then .pass st
      else
        let processed := processNewBlockHeaders env rules call.now st.man.tip
          [cmpctblock.header] true st.man (st.temperature call.addr)
        let st := { st with man := processed.state.1 }.setTemperature call.addr
          processed.state.2
        match processed.result with
        | .error (.invalid _ _) => .pass st
        | .error .aborted => .fail st .aborted
        | .error _ => compactBlockAccepted env rules stake call cmpctblock none st
        | .ok pindex => compactBlockAccepted env rules stake call cmpctblock pindex st

end

end Patchcoin
