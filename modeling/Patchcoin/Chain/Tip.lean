import Patchcoin.Chain.Undo

/-!
# The tip of the active chain

`ConnectTip` runs `connectBlock` on a cache over the coins of the tip.  A block
that fails leaves the coins as they were, and what the failure reports decides
whether the entry of the block is marked as failed for good.  `DisconnectTip`
takes the coins of the tip back with `disconnectBlock`; nothing else of what
connecting the block has written is taken back.
-/

namespace Patchcoin

/-- What the functions on the tip read and write. -/
structure Chainstate where
  /-- The active chain, the tip first. -/
  m_chain : IndexChain
  coinsTip : CCoinsView
  g_claims : ClaimPool
  setStakeSeen : List (COutPoint × UInt32)
  g_claimindex : Std.ExtTreeMap CScript ClaimRecord compare

/-- The state in which `ConnectBlock` is called on an entry and its block. -/
def Chainstate.connecting (chainstate : Chainstate) (pindexNew : CBlockIndex) (block : CBlock) :
    ConnectState where
  g_claims := chainstate.g_claims
  setStakeSeen := chainstate.setStakeSeen
  g_claimindex := chainstate.g_claimindex
  pindex := pindexNew
  view := chainstate.coinsTip
  block := block

/-- `InvalidBlockFound`, which is called for a failure that the validation state
reports as invalid. -/
def invalidBlockFound (failure : BlockFail) (pindex : CBlockIndex) : CBlockIndex :=
  match failure with
  | .invalid .BLOCK_MUTATED _ => pindex
  | .invalid _ _ => { pindex with nStatus := { pindex.nStatus with failedValid := true } }
  | _ => pindex

section

variable (env : Env) (kernel : Kernel) (ctx : Circumstances)

/-- `ConnectTip`: the new state and the entry of the block.  `flushed` is the result of
`FlushStateToDisk`, which comes after the coins have been written. -/
def connectTip (flushed : Except BlockFail Unit) (pindexNew : CBlockIndex) (block : CBlock)
    (chainstate : Chainstate) : Outcome (Chainstate × CBlockIndex) BlockFail Unit :=
  let connected := connectBlock env kernel ctx chainstate.m_chain false
    (chainstate.connecting pindexNew block)
  let written : Chainstate := { chainstate with
    g_claims := connected.state.g_claims
    setStakeSeen := connected.state.setStakeSeen
    g_claimindex := connected.state.g_claimindex }
  match connected.result with
  | .error failure =>
    .fail (written, invalidBlockFound failure connected.state.pindex) failure
  | .ok () =>
    let written := { written with coinsTip := connected.state.view }
    match flushed with
    | .error failure => .fail (written, connected.state.pindex) failure
    | .ok () =>
      .pass ({ written with m_chain := connected.state.pindex :: chainstate.m_chain },
        connected.state.pindex)

/-- `DisconnectTip`, with the block and the undo data as they are read from disk.
`flushed` is the result of `FlushStateToDisk`. -/
def disconnectTip (keys : PubKeys) (flushed : Except BlockFail Unit) (block : Option CBlock)
    (undo : List UInt8) (chainstate : Chainstate) : Outcome Chainstate BlockFail Unit :=
  match chainstate.m_chain with
  | pindexDelete :: pprev :: rest =>
    match block with
    | none => .fail chainstate (.error "DisconnectTip(): Failed to read block")
    | some block =>
      if chainstate.coinsTip.bestBlock ≠ pindexDelete.hashBlock then .fail chainstate .aborted
      else
        match disconnectBlock env pindexDelete
            (undoReadFromDisk keys env.host.hash256 pprev.hashBlock undo) block
            pprev.hashBlock chainstate.coinsTip with
        | (.DISCONNECT_OK, view) =>
          let chainstate := { chainstate with coinsTip := view }
          match flushed with
          | .error failure => .fail chainstate failure
          | .ok () => .pass { chainstate with m_chain := pprev :: rest }
        | _ => .fail chainstate (.error "DisconnectTip(): DisconnectBlock failed")
  -- the two assertions on the tip and its parent
  | _ => .fail chainstate .aborted

end

end Patchcoin
