import Patchcoin.Chain.DisconnectBlock
import Patchcoin.Primitives.Read

/-!
# Replaying blocks after a crash

The coin database is written in batches.  The first one marks the transition from
the old tip to the new tip and the last one ends it, so a crash in between leaves
any part of the entries written.  On restart `ReplayBlocks` disconnects the
blocks of the old branch, connects those of the new branch, and ignores that
some of their coins have been moved already.

The blocks and their undo data are read from the block files.  A block that the node has
made itself comes back without the times of its transactions.  An entry of the block index is
given together with its ancestors, nearest first.
-/

namespace Patchcoin

open Ledger CCoinsView

/-! ## Storage -/

/-- An entry of the block index with its block and the bytes of its undo data. -/
structure StoredBlock where
  pindex : CBlockIndex
  block : CBlock
  undo : List UInt8

/-- `ReadBlockFromDisk`: the file carries the time of a transaction only below version 3. -/
def StoredBlock.readBlockFromDisk (stored : StoredBlock) : CBlock :=
  { stored.block with vtx := stored.block.vtx.map CTransaction.received }

/-- The entries of stored blocks, as a chain of the index. -/
def entriesOf (chain : List StoredBlock) : IndexChain := chain.map StoredBlock.pindex

/-- The hash of the first block of a chain; zero if there is none. -/
def tipHash (chain : List StoredBlock) : Uint256 := parentHash (entriesOf chain)

/-- `m_block_index`: an entry by its hash, with its ancestors.  Following `pprev` leads to
entries of the index again. -/
structure BlockTree where
  chainOf : Uint256 → Option (List StoredBlock)
  hash_eq : ∀ {hash : Uint256} {chain : List StoredBlock}, chainOf hash = some chain →
    chain ≠ [] ∧ tipHash chain = hash
  ancestors : ∀ {hash : Uint256} {chain rest : List StoredBlock}, chainOf hash = some chain →
    rest <:+ chain → rest ≠ [] → chainOf (tipHash rest) = some rest

/-- `CCoinsViewDB`: the coins, `DB_BEST_BLOCK` and `DB_HEAD_BLOCKS`. -/
structure CCoinsViewDB where
  coins : COutPoint → Option Coin
  bestBlock : Uint256
  headBlocks : List Uint256

/-- The tip that `BatchWrite` starts from.  In the middle of a replay it is the one noted
before. -/
def CCoinsViewDB.oldTip (db : CCoinsViewDB) : Uint256 :=
  if db.bestBlock = 0 then
    match db.headBlocks with
    | [_, old_tip] => old_tip
    | _ => 0
  else db.bestBlock

/-- The entries of the cache that have reached the database, `none` for a spent coin. -/
def writeEntries (coins : COutPoint → Option Coin) (entries : List (COutPoint × Option Coin)) :
    COutPoint → Option Coin :=
  entries.foldl (fun coins entry => write coins entry.1 entry.2) coins

/-- `CCoinsViewDB::BatchWrite` after a crash: the first batch has marked the transition, and
the given entries have been written. -/
def CCoinsViewDB.interruptedWrite (db : CCoinsViewDB) (written : List (COutPoint × Option Coin))
    (hashBlock : Uint256) : CCoinsViewDB where
  coins := writeEntries db.coins written
  bestBlock := 0
  headBlocks := [hashBlock, db.oldTip]

/-! ## Forward -/

/-- `AddCoins` with `check_for_overwrite`: a coin that is there is overwritten. -/
def CCoinsView.addCoinsChecked (txid : Uint256) (coin : CTxOut → Coin) (fSkipZeroValue : Bool) :
    CCoinsView → List CTxOut → ℕ → CCoinsView
  | view, [], _ => view
  | view, out :: rest, n =>
    let overwrite := (view.coins ⟨txid, UInt32.ofNat n⟩).isSome
    addCoinsChecked txid coin fSkipZeroValue
      ((view.addCoin ⟨txid, UInt32.ofNat n⟩ (coin out) overwrite fSkipZeroValue).getD view)
      rest (n + 1)

section

variable (env : Env) (keys : PubKeys)

/-- The body of the loop of `RollforwardBlock`; inputs that are not there are ignored. -/
def rollforwardTx (pindex : CBlockIndex) (inputs : CCoinsView) (tx : CTransaction) : CCoinsView :=
  let inputs := if tx.isCoinBase then inputs
    else tx.vin.foldl (fun inputs input => (inputs.spendCoin input.prevout).getD inputs) inputs
  CCoinsView.addCoinsChecked (tx.getHash env.host.hash256) (tx.coinOf pindex.nHeight)
    (isProtocolV12 env.params pindex.nTime.toNat) inputs tx.vout 0

/-- `Chainstate::RollforwardBlock` on a block that could be read. -/
def rollforwardBlock (stored : StoredBlock) (inputs : CCoinsView) : CCoinsView :=
  stored.readBlockFromDisk.vtx.foldl (rollforwardTx env stored.pindex) inputs

/-- The first blocks of a chain are rolled forward, the oldest first. -/
def rollforward : ℕ → List StoredBlock → CCoinsView → CCoinsView
  | count + 1, stored :: rest, cache => rollforwardBlock env stored (rollforward count rest cache)
  | _, _, cache => cache

/-! ## Back -/

/-- The undo data of a stored block, as `DisconnectBlock` reads it. -/
def storedUndo (stored : StoredBlock) (rest : List StoredBlock) : Option CBlockUndo :=
  undoReadFromDisk keys env.host.hash256 (tipHash rest) stored.undo

/-- The loop of `ReplayBlocks` along the old branch.  The genesis block is never
disconnected, and an unclean result is accepted. -/
def rollback : ℕ → List StoredBlock → CCoinsView → Option CCoinsView
  | count + 1, stored :: rest, cache =>
    if 0 < stored.pindex.nHeight then
      match disconnectBlock env stored.pindex (storedUndo env keys stored rest)
          stored.readBlockFromDisk (tipHash rest) cache with
      | (.DISCONNECT_FAILED, _) => none
      | (_, cache) => rollback count rest cache
    else rollback count rest cache
  | _, _, cache => some cache

/-! ## Replay -/

/-- The loop of `LastCommonAncestor`, from entries of the same height. -/
def walkBack : List StoredBlock → List StoredBlock → List StoredBlock
  | pa :: resta, pb :: restb =>
    if pa.pindex.hashBlock = pb.pindex.hashBlock then pa :: resta else walkBack resta restb
  | _, _ => []

/-- `LastCommonAncestor`, with its own ancestors. -/
def lastCommonAncestor (pa pb : List StoredBlock) : List StoredBlock :=
  walkBack (pa.drop (pa.length - pb.length)) (pb.drop (pb.length - pa.length))

/-- Why `ReplayBlocks` does not succeed. -/
inductive ReplayError where
  | unknownInconsistentState
  | toUnknownBlock
  | fromUnknownBlock
  /-- `assert(pindexFork != nullptr)` -/
  | noFork
  | disconnectFailed
  deriving DecidableEq, Repr

/-- The height of the first block of a chain; zero if there is none. -/
def tipHeight (chain : List StoredBlock) : ℕ :=
  (chain.head?.map fun stored => stored.pindex.nHeight).getD 0

/-- The body of `ReplayBlocks` once the two tips are known.  The flush in the end writes
what the cache holds. -/
def replayChains (old new : List StoredBlock) (db : CCoinsViewDB) :
    Except ReplayError CCoinsViewDB :=
  let fork := if old.isEmpty then [] else lastCommonAncestor old new
  if !old.isEmpty && fork.isEmpty then .error .noFork
  else
    match rollback env keys (old.length - fork.length) old ⟨db.coins, 0⟩ with
    | none => .error .disconnectFailed
    | some cache =>
      let cache := rollforward env (tipHeight new - tipHeight fork) new cache
      .ok { coins := cache.coins, bestBlock := tipHash new, headBlocks := [] }

/-- `Chainstate::ReplayBlocks`. -/
def replayBlocks (tree : BlockTree) (db : CCoinsViewDB) : Except ReplayError CCoinsViewDB :=
  match db.headBlocks with
  | [] => .ok db
  | [hashNew, hashOld] =>
    match tree.chainOf hashNew with
    | none => .error .toUnknownBlock
    | some new =>
      if hashOld = 0 then replayChains env keys [] new db
      else
        match tree.chainOf hashOld with
        | none => .error .fromUnknownBlock
        | some old => replayChains env keys old new db
  | _ => .error .unknownInconsistentState

end

/-! ## What a part of the entries leaves -/

theorem writeEntries_eq {coins new : COutPoint → Option Coin}
    {written : List (COutPoint × Option Coin)}
    (hwritten : ∀ entry ∈ written, entry.2 = new entry.1) :
    writeEntries coins written = overlay (written.map Prod.fst) new coins := by
  unfold writeEntries
  induction written generalizing coins with
  | nil => simp
  | cons entry rest ih =>
    rw [List.foldl_cons, ih fun other hother => hwritten other (.tail _ hother),
      hwritten entry (.head _), List.map_cons]
    funext outpoint
    by_cases hmem : outpoint ∈ rest.map Prod.fst
    · rw [overlay_of_mem hmem, overlay_of_mem (.tail _ hmem)]
    · rw [overlay_of_notMem hmem]
      by_cases heq : outpoint = entry.1
      · rw [heq, write_self, overlay_of_mem (.head _)]
      · rw [write_of_ne heq, overlay_of_notMem (by simp [heq, hmem])]

/-! ## Blocks that are read back -/

section ReadBack

variable (env : Env) (pindex : CBlockIndex)

/-- The coins after the transactions of a block. -/
def coinsAfter (vtx : List CTransaction) (coins : COutPoint → Option Coin) :
    COutPoint → Option Coin :=
  vtx.foldl (fun coins tx => writeAll (eraseAll coins tx.spent) (createdIn env pindex tx)) coins

/-- The transactions of a branch with the entries of their blocks, the last one first. -/
def branchTxs (branch : List StoredBlock) : List (CBlockIndex × CTransaction) :=
  branch.flatMap fun stored => stored.block.vtx.reverse.map (Prod.mk stored.pindex)

/-- The time that the block files have for an output: that of the last transaction to touch it. -/
def timeOnDisk (txs : List (CBlockIndex × CTransaction)) (outpoint : COutPoint) : Option UInt32 :=
  (txs.find? fun entry => outpoint ∈ touched env entry.1 entry.2).map
    fun entry => entry.2.received.nTime

end ReadBack

/-- The coin with another time. -/
def Coin.withTime (nTime : UInt32) (coin : Coin) : Coin := { coin with nTime := nTime }

/-- The coins with the times that the block files have for them. -/
def withTimesOnDisk (env : Env) (txs : List (CBlockIndex × CTransaction))
    (coins : COutPoint → Option Coin) : COutPoint → Option Coin := fun outpoint =>
  (coins outpoint).map fun coin => coin.withTime ((timeOnDisk env txs outpoint).getD coin.nTime)

/-! ## Rolling forward is an overlay -/

section Forward

variable {env : Env} {pindex : CBlockIndex} {tx : CTransaction} {txs : List CTransaction}
  {view view' other : CCoinsView}

theorem addCoinsChecked_eq {txid : Uint256} {coin : CTxOut → Coin} {fSkipZeroValue : Bool}
    (hcoin : ∀ out, (coin out).out = out) {outs : List CTxOut} {n : ℕ} :
    other.addCoinsChecked txid coin fSkipZeroValue outs n = { other with
      coins := writeAll other.coins (createdCoins txid coin fSkipZeroValue outs n) } := by
  induction outs generalizing other n with
  | nil => rfl
  | cons out rest ih =>
    rw [addCoinsChecked, createdCoins]
    cases hadd : other.addCoin ⟨txid, UInt32.ofNat n⟩ (coin out)
        (other.coins ⟨txid, UInt32.ofNat n⟩).isSome fSkipZeroValue with
    | none =>
      -- only an unspent coin that may not be overwritten makes it throw
      unfold addCoin at hadd
      split_ifs at hadd with _ _ hclash
      cases hthere : other.coins ⟨txid, UInt32.ofNat n⟩ <;> simp [hthere] at hclash
    | some next =>
      rw [Option.getD_some, ih]
      rcases addCoin_of_some hadd with ⟨hskip, rfl⟩ | ⟨hskip, -, rfl⟩
      · rw [hcoin] at hskip
        rw [if_pos hskip]
      · rw [hcoin] at hskip
        rw [if_neg (by simp [hskip])]
        rfl

theorem foldl_spendCoin (inputs : List CTxIn) :
    inputs.foldl (fun view input => (view.spendCoin input.prevout).getD view) other =
      { other with coins := eraseAll other.coins (inputs.map CTxIn.prevout) } := by
  induction inputs generalizing other with
  | nil => simp
  | cons input rest ih =>
    rw [List.foldl_cons, ih, spendCoin_getD, List.map_cons, eraseAll_cons]

theorem rollforwardTx_eq (other : CCoinsView) : rollforwardTx env pindex other tx = { other with
    coins := writeAll (eraseAll other.coins tx.spent) (createdIn env pindex tx) } := by
  have hspent : (if tx.isCoinBase then other
      else tx.vin.foldl (fun view input => (view.spendCoin input.prevout).getD view) other) =
      { other with coins := eraseAll other.coins tx.spent } := by
    unfold CTransaction.spent
    split_ifs
    · rw [eraseAll_nil]
    · exact foldl_spendCoin tx.vin
  unfold rollforwardTx
  rw [hspent, addCoinsChecked_eq fun _ => rfl]
  rfl

theorem Applies.coins_eq (h : Applies env pindex txs view view') :
    view'.coins = coinsAfter env pindex txs view.coins := by
  induction h with
  | nil view => rfl
  | @cons tx rest view next final hfirst hrest ih =>
    have hnext := (CCoinsView.applied_of_updateCoins hfirst).view_eq
    rw [ih, hnext]
    rfl

theorem createdCoins_map {txid : Uint256} {coin coin' : CTxOut → Coin} {fSkipZeroValue : Bool}
    {g : Coin → Coin} (hcoin : ∀ out, coin' out = g (coin out)) (outs : List CTxOut) (n : ℕ) :
    createdCoins txid coin' fSkipZeroValue outs n =
      (createdCoins txid coin fSkipZeroValue outs n).map fun entry => (entry.1, g entry.2) := by
  induction outs generalizing n with
  | nil => rfl
  | cons out rest ih =>
    rw [createdCoins, createdCoins]
    split
    · exact ih (n + 1)
    · rw [List.map_cons, ih (n + 1), hcoin]

/-- A transaction that was received adds the same coins, with the time it was received with. -/
theorem createdIn_received (tx : CTransaction) : createdIn env pindex tx.received =
      (createdIn env pindex tx).map
        fun entry => (entry.1, entry.2.withTime tx.received.nTime) := by
  have hcoin : ∀ out, tx.received.coinOf pindex.nHeight out =
      (tx.coinOf pindex.nHeight out).withTime tx.received.nTime := fun out => rfl
  unfold createdIn CTransaction.created
  rw [CTransaction.getHash_received]
  exact createdCoins_map hcoin tx.vout 0

theorem withTimesOnDisk_of_mem {later earlier : List (CBlockIndex × CTransaction)}
    {coins : COutPoint → Option Coin} {outpoint : COutPoint}
    (h : ∃ entry ∈ later, outpoint ∈ touched env entry.1 entry.2) :
    withTimesOnDisk env (later ++ earlier) coins outpoint =
      withTimesOnDisk env later coins outpoint := by
  obtain ⟨entry, hfound⟩ := Option.isSome_iff_exists.mp
    (List.find?_isSome.mpr (h.imp fun entry hentry => ⟨hentry.1, decide_eq_true hentry.2⟩))
  unfold withTimesOnDisk timeOnDisk
  rw [List.find?_append, hfound, Option.some_or]

theorem withTimesOnDisk_of_notMem {later earlier : List (CBlockIndex × CTransaction)}
    {coins : COutPoint → Option Coin} {outpoint : COutPoint}
    (h : ∀ entry ∈ later, outpoint ∉ touched env entry.1 entry.2) :
    withTimesOnDisk env (later ++ earlier) coins outpoint =
      withTimesOnDisk env earlier coins outpoint := by
  have hnone : later.find? (fun entry => outpoint ∈ touched env entry.1 entry.2) = none :=
    List.find?_eq_none.mpr fun entry hentry => by simpa using h entry hentry
  unfold withTimesOnDisk timeOnDisk
  rw [List.find?_append, hnone, Option.none_or]

/-- What was read later is put over what was read earlier. -/
theorem overlay_withTimesOnDisk {later earlier : List (CBlockIndex × CTransaction)}
    {keys keys' : List COutPoint} {middle final coins : COutPoint → Option Coin}
    (hkeys : ∀ key, key ∈ keys ↔ ∃ entry ∈ later, key ∈ touched env entry.1 entry.2)
    (hfinal : ∀ key ∉ keys, final key = middle key) :
    overlay keys (withTimesOnDisk env later final)
        (overlay keys' (withTimesOnDisk env earlier middle) coins) =
      overlay (keys ++ keys') (withTimesOnDisk env (later ++ earlier) final) coins := by
  have hlater : overlay keys (withTimesOnDisk env later final) =
      overlay keys (withTimesOnDisk env (later ++ earlier) final) := by
    funext entries key
    unfold overlay
    split_ifs with hmem
    · rw [withTimesOnDisk_of_mem ((hkeys key).mp hmem)]
    · rfl
  rw [hlater]
  refine overlay_overlay fun key _ hnot => ?_
  rw [withTimesOnDisk_of_notMem
    fun entry hentry hmem => hnot ((hkeys key).mpr ⟨entry, hentry, hmem⟩)]
  unfold withTimesOnDisk
  rw [hfinal key hnot]

/-- Rolling a transaction forward puts the coins after it on what it touches, with the time
that was read. -/
theorem AppliedIn.rollforwardTx_received (h : AppliedIn env pindex tx view view')
    (other : CCoinsView) : rollforwardTx env pindex other tx.received = { other with
      coins := overlay (touched env pindex tx) (withTimesOnDisk env [(pindex, tx)] view'.coins)
        other.coins } := by
  have hkeys : (createdIn env pindex tx.received).map Prod.fst =
      (createdIn env pindex tx).map Prod.fst := by
    rw [createdIn_received, List.map_map]
    rfl
  have hnone : eraseAll (fun _ => none) tx.spent = fun _ => (none : Option Coin) :=
    funext fun _ => ite_self _
  have hread : writeAll (fun _ => none) (createdIn env pindex tx.received) = fun outpoint =>
      (writeAll (fun _ => none) (createdIn env pindex tx) outpoint).map
        (Coin.withTime tx.received.nTime) := by
    rw [createdIn_received]
    exact writeAll_map (Coin.withTime tx.received.nTime) (fun _ => none) _
  have hafter : view'.coins = overlay (touched env pindex tx)
      (writeAll (fun _ => none) (createdIn env pindex tx)) view.coins := by
    rw [h.view_eq, ← hnone]
    exact replay (fun _ => none) view.coins tx.spent (createdIn env pindex tx)
  have hother : writeAll (eraseAll other.coins tx.spent) (createdIn env pindex tx.received) =
      overlay (touched env pindex tx)
        (writeAll (fun _ => none) (createdIn env pindex tx.received)) other.coins := by
    rw [replay fun _ => none, hnone, hkeys]
    rfl
  rw [rollforwardTx_eq]
  refine congrArg (fun coins => { other with coins }) (hother.trans ?_)
  funext outpoint
  unfold overlay
  split_ifs with hmem
  · have htime : timeOnDisk env [(pindex, tx)] outpoint = some tx.received.nTime := by
      simp [timeOnDisk, hmem]
    rw [hread, withTimesOnDisk, htime, hafter, overlay_of_mem hmem]
    rfl
  · rfl

theorem Applies.rollforward_received (h : Applies env pindex txs view view')
    (other : CCoinsView) :
    (txs.map CTransaction.received).foldl (rollforwardTx env pindex) other = { other with
      coins := overlay (txs.flatMap (touched env pindex))
        (withTimesOnDisk env (txs.reverse.map (Prod.mk pindex)) view'.coins) other.coins } := by
  induction h generalizing other with
  | nil view => simp
  | @cons tx rest view next final hfirst hrest ih =>
    have happlied : AppliedIn env pindex tx view next := applied_of_updateCoins hfirst
    rw [List.map_cons, List.foldl_cons, happlied.rollforwardTx_received, ih, List.reverse_cons,
      List.map_append]
    refine congrArg (fun coins => { other with coins }) ?_
    rw [overlay_withTimesOnDisk (by simp) fun key hnot => hrest.coins_of_notMem hnot,
      List.flatMap_cons, overlay_append_comm]
    rfl

end Forward

end Patchcoin
