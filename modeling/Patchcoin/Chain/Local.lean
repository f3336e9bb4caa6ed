import Patchcoin.Chain.Replay
import Patchcoin.SmallMint

/-!
# Blocks that a node makes itself

A node that finds a stake puts a block together in memory and connects that very object.
Its own transactions are of version 3 and carry the time at which they were made
(`CMutableTransaction.new`).  The time goes into the coins (`AddCoins`), but not into the
stream: the other nodes read it as zero and write coins without it.

Hence the coins of the two differ exactly where a transaction of a later version has a time
in memory and creates a coin (`blockCoins_received_iff`).
-/

namespace Patchcoin

open Ledger

/-! ## The coins of a block -/

section

variable (env : Env) (pindex : CBlockIndex)

/-- The coins that a block adds, in the order of the calls of `AddCoin`. -/
def blockCoins (block : CBlock) : List (COutPoint × Coin) :=
  block.vtx.flatMap (createdIn env pindex)

end

variable {env : Env} {pindex : CBlockIndex}

/-- A block that is connected spends and adds what its transactions say. -/
theorem coins_connectBlock {kernel : Kernel} {ctx : Circumstances}
    {ancestors : IndexChain} {st : ConnectState}
    (hnot : st.block.getHash env.host.hash256 ≠ env.params.hashGenesisBlock)
    (hok : (connectBlock env kernel ctx ancestors false st).result = .ok ()) :
    (connectBlock env kernel ctx ancestors false st).state.view.coins =
      coinsAfter env st.pindex st.block.vtx st.view.coins := by
  obtain ⟨view, happlies, hcoins⟩ := (connectedCoins_of_ok hok hnot).applies
  rw [hcoins, happlies.coins_eq]

/-! ## The coins of a block that was received -/

theorem nTime_of_mem_createdIn {tx : CTransaction} {entry : COutPoint × Coin}
    (h : entry ∈ createdIn env pindex tx) : entry.2.nTime = tx.nTime := by
  obtain ⟨-, out, -, -, hcoin⟩ := mem_createdCoins h
  rw [hcoin]
  rfl

/-- The coins are the same if the time is, or if there are none. -/
theorem createdIn_received_eq_iff (tx : CTransaction) :
    createdIn env pindex tx.received = createdIn env pindex tx ↔
      tx.nVersion.toInt < 3 ∨ tx.nTime = 0 ∨ createdIn env pindex tx = [] := by
  have htime : tx.received.nTime = tx.nTime ↔ tx.nVersion.toInt < 3 ∨ tx.nTime = 0 := by
    unfold CTransaction.received
    split
    · next hold => simp [hold]
    · next hnew => simp [hnew, eq_comm]
  rw [← or_assoc, ← htime, createdIn_received]
  constructor
  · intro h
    cases hcoins : createdIn env pindex tx with
    | nil => exact .inr rfl
    | cons entry rest =>
      have hmem : entry ∈ createdIn env pindex tx := by
        rw [hcoins]
        exact .head _
      rw [hcoins, List.map_cons, List.cons.injEq] at h
      have hcoin : entry.2.withTime tx.received.nTime = entry.2 := congrArg Prod.snd h.1
      exact .inl ((congrArg Coin.nTime hcoin).trans (nTime_of_mem_createdIn hmem))
  · rintro (hsame | hnone)
    · calc (createdIn env pindex tx).map
            (fun entry => (entry.1, entry.2.withTime tx.received.nTime))
          = (createdIn env pindex tx).map id := by
            refine List.map_congr_left fun entry hentry => ?_
            rw [hsame, ← nTime_of_mem_createdIn hentry]
            rfl
        _ = createdIn env pindex tx := List.map_id _
    · rw [hnone]
      rfl

/-- Lists of lists of the same lengths agree together if each does. -/
theorem flatMap_map_eq_iff {f : CTransaction → CTransaction}
    {g : CTransaction → List (COutPoint × Coin)} (hlength : ∀ tx, (g (f tx)).length = (g tx).length)
    (txs : List CTransaction) :
    (txs.map f).flatMap g = txs.flatMap g ↔ ∀ tx ∈ txs, g (f tx) = g tx := by
  induction txs with
  | nil => simp
  | cons tx rest ih =>
    rw [List.map_cons, List.flatMap_cons, List.flatMap_cons, List.forall_mem_cons, ← ih]
    constructor
    · exact fun h => List.append_inj h (hlength tx)
    · rintro ⟨hfirst, hrest⟩
      rw [hfirst, hrest]

/-- A block that a node made and connected adds the coins that it adds on the other nodes
exactly if its transactions of later versions carry no time or create no coin. -/
theorem blockCoins_received_iff {kernel : Kernel} {ctx : Circumstances}
    {ancestors : IndexChain} {st : ConnectState} {received : CBlock} {rest : List UInt8}
    (hnot : st.block.getHash env.host.hash256 ≠ env.params.hashGenesisBlock)
    (hok : (connectBlock env kernel ctx ancestors false st).result = .ok ())
    (hsend : st.block.Sendable)
    (hread : readBlock (serSentBlock st.block) = some (received, rest)) :
    (connectBlock env kernel ctx ancestors false st).state.view.coins =
        coinsAfter env st.pindex st.block.vtx st.view.coins ∧
      (blockCoins env st.pindex received = blockCoins env st.pindex st.block ↔
        ∀ tx ∈ st.block.vtx, tx.nVersion.toInt < 3 ∨ tx.nTime = 0 ∨
          createdIn env st.pindex tx = []) := by
  refine ⟨coins_connectBlock hnot hok, ?_⟩
  have hlength : ∀ tx : CTransaction, (createdIn env st.pindex tx.received).length =
      (createdIn env st.pindex tx).length := by
    intro tx
    rw [createdIn_received, List.length_map]
  unfold blockCoins
  rw [vtx_of_readBlock hsend hread, flatMap_map_eq_iff hlength]
  exact forall₂_congr fun tx _ => createdIn_received_eq_iff tx

namespace SmallNet

/-- The call that pays the only claim from the genesis coin of the wallet. -/
def localCall : MintCall :=
  { mintCall 1700000303 with g_claims := crowdClaims 1 (10 * COIN), coinsTip := mintView }

/-- The block of the call after `IncrementExtraNonce` and `SignBlock`. -/
def localBlock : CBlock :=
  let block := (mintAssembler true 1700000303 []).fillBlock (crowdNode 1 (10 * COIN)) localCall
    singleStake
  { block with
    hashMerkleRoot := (computeMerkleRoot hash256 (block.vtx.map (CTransaction.getHash hash256))).1
    vchBlockSig := [1] }

/-- The block as the other nodes read it. -/
def remoteBlock : CBlock := { localBlock with vtx := localBlock.vtx.map CTransaction.received }

/-- The node that made the block, before it connects the given one. -/
def localState (block : CBlock) : ConnectState where
  g_claims := localCall.g_claims
  setStakeSeen := []
  g_claimindex := ∅
  pindex := CBlockIndex.ofHeader (block.getHash hash256) 2 block.toCBlockHeader
  view := mintView
  block := block

/-- The block that `CreateNewBlock` makes is accepted as it was made and as it was received,
and the coins differ. -/
theorem local_coins_differ :
    let env := BlockAssembler.holding (crowdNode 1 (10 * COIN)) true
    (∃ block, (mintAssembler true 1700000303 []).createNewBlock? (crowdNode 1 (10 * COIN))
        mintRules (mintWallet [genesisCoin 0] []) localCall 2 = some (.made block) ∧
      block.vtx = localBlock.vtx ∧ block.vClaim = localBlock.vClaim) ∧
    passed (connectBlock env stakeKernel ordinary localCall.view.m_chain false
      (localState localBlock)).result = true ∧
    readBlock (serSentBlock localBlock) = some (remoteBlock, []) ∧
    passed (connectBlock env stakeKernel ordinary localCall.view.m_chain false
      (localState remoteBlock)).result = true ∧
    (blockCoins env (localState localBlock).pindex localBlock).map
        (fun entry => entry.2.nTime) = [1700000298, 1700000298] ∧
    (blockCoins env (localState localBlock).pindex remoteBlock).map
        (fun entry => entry.2.nTime) = [0, 0] := by
  refine ⟨⟨(mintAssembler true 1700000303 []).fillBlock (crowdNode 1 (10 * COIN)) localCall
    singleStake, ?_⟩, by decide +kernel, by decide +kernel, by decide +kernel, by decide +kernel,
    by decide +kernel⟩
  decide +kernel

/-- A block whose coinbase, which creates no coin, carries a time in memory. -/
def timedCoinbaseBlock : CBlock :=
  { snapshotBlock with
    vtx := snapshotBlock.vtx.modifyHead fun coinbase => { coinbase with nTime := 1700000500 } }

/-- It is another block when it was received, but adds the same coins. -/
theorem timed_coinbase_coins : timedCoinbaseBlock ≠ snapshotBlock ∧
      blockCoins (SmallNet.node false false)
          (second (SmallNet.node false false) timedCoinbaseBlock).pindex snapshotBlock =
        blockCoins (SmallNet.node false false)
          (second (SmallNet.node false false) timedCoinbaseBlock).pindex timedCoinbaseBlock := by
  have hok : (connectBlock (SmallNet.node false false) stakeKernel ordinary
      (genesisChain (SmallNet.node false false)) false
      (second (SmallNet.node false false) timedCoinbaseBlock)).result = .ok () :=
    passed_iff.mp (by decide +kernel)
  have hsend : timedCoinbaseBlock.Sendable := ⟨by decide +kernel, by decide +kernel⟩
  have hread : readBlock (serSentBlock timedCoinbaseBlock) = some (snapshotBlock, []) := by
    decide +kernel
  refine ⟨by decide +kernel, ?_⟩
  exact (blockCoins_received_iff (by decide +kernel) hok hsend hread).2.mpr (by decide +kernel)

end SmallNet

end Patchcoin
