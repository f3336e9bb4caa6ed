import Patchcoin.Chain.Disconnect
import Patchcoin.SmallNet

/-!
# Disconnecting inverts connecting

A block that `ConnectBlock` has connected is taken back by `DisconnectBlock`, with
the undo data that went through the undo file, exactly if (`disconnect_inverts_iff`)

* its coinbase did not overwrite an unspent coin, which is lost: coinbases may
  overwrite and have no undo data;
* it does not spend the last unspent outputs of the genesis transaction: undo
  records of height zero need another output of the transaction to be there.

The undo data itself always survives the file.
-/

namespace Patchcoin

open Ledger List CCoinsView

variable {env : Env} {kernel : Kernel} {ctx : Circumstances} {ancestors : IndexChain}
  {pindex : CBlockIndex} {block : CBlock} {st : ConnectState} {genesis coinbase : CTransaction}
  {rest : List CTransaction} {view next final other : CCoinsView} {hashPrev : Uint256}
variable {tx : CTransaction} {txs : List CTransaction}

/-! ## Blocks that have passed the checks -/

/-- What `CheckBlock` tests of the transactions of a block. -/
structure CBlock.Shaped (block : CBlock) (coinbase : CTransaction) (rest : List CTransaction) :
    Prop where
  vtx_eq : block.vtx = coinbase :: rest
  coinbase : coinbase.isCoinBase = true
  others : ∀ tx ∈ rest, tx.isCoinBase = false
  count : block.vtx.length * WITNESS_SCALE_FACTOR ≤ MAX_BLOCK_WEIGHT
  size : blockSize block * WITNESS_SCALE_FACTOR ≤ MAX_BLOCK_WEIGHT

theorem shaped_of_checkBlockBody (h : checkBlockBody env block = .ok ()) :
    ∃ coinbase rest, block.Shaped coinbase rest := by
  have hbody := bodyPasses_of_ok h
  cases hvtx : block.vtx with
  | nil => exact absurd hvtx hbody.nonempty
  | cons coinbase rest =>
    refine ⟨coinbase, rest, hvtx, ?_, ?_, hbody.count, hbody.size⟩
    · simpa [hvtx] using hbody.coinbase
    · simpa [hvtx] using hbody.others

/-- The inputs and the outputs of a transaction are fewer than the bytes of its block. -/
theorem length_le_blockSize (htx : tx ∈ block.vtx) :
    tx.vin.length ≤ blockSize block ∧ tx.vout.length ≤ blockSize block := by
  have htxSize : (serializeTransaction true tx).length ≤
      (PrefixCode.lengthPrefixed (serializeTransaction true) block.vtx).length :=
    PrefixCode.length_le_lengthPrefixed_of_mem htx
  have hinputs : tx.vin.length ≤ (PrefixCode.lengthPrefixed serTxIn tx.vin).length :=
    PrefixCode.length_le_lengthPrefixed (fun input => by simp [serTxIn, serUInt32]) tx.vin
  have houtputs : tx.vout.length ≤ (PrefixCode.lengthPrefixed serTxOut tx.vout).length :=
    PrefixCode.length_le_lengthPrefixed (fun out => by simp [serTxOut, serInt64]) tx.vout
  simp only [blockSize, serBlock, serializeTransaction, length_append] at htxSize ⊢
  omega

/-! ## Undo data -/

theorem fst_blockViews (h : Applies env pindex txs view final) :
    (blockViews env pindex view txs).map Prod.fst = txs := by
  induction h with
  | nil view => rfl
  | @cons tx rest view next final hfirst hrest ih =>
    rw [blockViews, hfirst, map_cons]
    exact congrArg (cons tx) ih

section

variable (h : Applies env pindex txs view final) (htxs : ∀ tx ∈ txs, Ordinary env genesis tx)
  (hpos : 0 < pindex.nHeight) (hheight : pindex.nHeight < 2 ^ 30)
  (hview : Regular env.host.hash256 genesis view.coins)
include h htxs hpos hheight hview

/-- The records of the coins that regular views hold can be stored. -/
theorem storable_blockViews :
    ∀ entry ∈ blockViews env pindex view txs,
      ∀ coin ∈ (txUndo entry.1 entry.2).vprevout, coin.Storable := by
  induction h with
  | nil view =>
    intro entry hentry
    exact absurd hentry not_mem_nil
  | @cons tx rest view next final hfirst hrest ih =>
    have htx := htxs tx (.head _)
    have happlied : AppliedIn env pindex tx view next := applied_of_updateCoins hfirst
    intro entry hentry coin hcoin
    rw [blockViews, hfirst] at hentry
    rcases mem_cons.mp hentry with rfl | hmem
    · rw [txUndo, htx.not_coinBase] at hcoin
      obtain ⟨input, hinput, rfl⟩ := mem_map.mp hcoin
      have hrecord := happlied.undoEntries_eq htx.not_coinBase _ (mem_map_of_mem hinput)
      exact hview.storable _ _ hrecord
    · exact ih (fun other hother => htxs other (mem_cons_of_mem tx hother))
        (hview.updateCoins htx hpos hheight hfirst) entry hmem coin hcoin

theorem Applies.regular : Regular env.host.hash256 genesis final.coins := by
  induction h with
  | nil view => exact hview
  | @cons tx rest view next final hfirst hrest ih =>
    exact ih (fun other hother => htxs other (mem_cons_of_mem tx hother))
      (hview.updateCoins (htxs tx (.head _)) hpos hheight hfirst)

end

/-- The coins on which a block with the given coinbase works: before it, after the coinbase,
and after the other transactions. -/
structure BlockRun (env : Env) (genesis : CTransaction) (pindex : CBlockIndex) (block : CBlock)
    (coinbase : CTransaction) (rest : List CTransaction) (view next final : CCoinsView) : Prop where
  shaped : block.Shaped coinbase rest
  first : view.updateCoins env.host.hash256 coinbase pindex.nHeight
    (isProtocolV12 env.params pindex.nTime.toNat) = .ok next
  others : Applies env pindex rest next final
  not_genesis : coinbase.getHash env.host.hash256 ≠ genesis.getHash env.host.hash256
  value : ∀ out ∈ coinbase.vout, moneyRange out.value = true
  ordinary : ∀ tx ∈ rest, Ordinary env genesis tx
  pos : 0 < pindex.nHeight
  height : pindex.nHeight < 2 ^ 30
  regular : Regular env.host.hash256 genesis view.coins

namespace BlockRun

variable (h : BlockRun env genesis pindex block coinbase rest view next final)

include h

theorem applied : AppliedIn env pindex coinbase view next :=
  applied_of_updateCoins h.first

theorem regular_next : Regular env.host.hash256 genesis next.coins :=
  h.regular.applied h.applied h.pos h.height h.value h.not_genesis

theorem regular_final : Regular env.host.hash256 genesis final.coins :=
  h.others.regular h.ordinary h.pos h.height h.regular_next

/-- A coinbase spends nothing. -/
theorem spent_coinbase : coinbase.spent = [] := by
  rw [CTransaction.spent, h.shaped.coinbase]
  rfl

theorem spendsGenesis_iff :
    SpendsGenesis env genesis block.vtx ↔ SpendsGenesis env genesis rest := by
  unfold SpendsGenesis
  rw [h.shaped.vtx_eq]
  simp only [mem_cons, exists_eq_or_imp, h.spent_coinbase, not_mem_nil, false_and,
    exists_false, false_or]

theorem nodup_coinbase : ((createdIn env pindex coinbase).map Prod.fst).Nodup := by
  have hmem : coinbase ∈ block.vtx := by
    rw [h.shaped.vtx_eq]
    exact .head _
  have houts := (length_le_blockSize hmem).2
  have hsize := h.shaped.size
  have hmax : MAX_BLOCK_WEIGHT = 4000000 := rfl
  rw [WITNESS_SCALE_FACTOR, hmax] at hsize
  exact (nodup_createdCoins (by omega)).1

theorem coins_next {outpoint : COutPoint}
    (hmem : outpoint ∉ (createdIn env pindex coinbase).map Prod.fst) :
    next.coins outpoint = view.coins outpoint := by
  refine h.applied.coins_of_notMem fun htouched => ?_
  rw [touched, h.spent_coinbase] at htouched
  exact hmem htouched

/-- The undo data of the block, from the coins after its coinbase. -/
theorem undoOf_eq : undoOf env pindex view block.vtx =
    ⟨(blockViews env pindex next rest).map fun entry => txUndo entry.1 entry.2⟩ := by
  rw [undoOf, h.shaped.vtx_eq, blockViews, h.first]
  rfl

theorem storable_undoOf : (undoOf env pindex view block.vtx).Storable := by
  have hfst := fst_blockViews h.others
  have hcount := h.shaped.count
  have hsize := h.shaped.size
  have hmax : MAX_BLOCK_WEIGHT = 4000000 := rfl
  rw [WITNESS_SCALE_FACTOR, hmax] at hcount hsize
  rw [h.undoOf_eq]
  refine ⟨?_, ?_, ?_⟩
  · have hlength := congrArg length hfst
    rw [h.shaped.vtx_eq, length_cons] at hcount
    rw [length_map] at hlength
    rw [length_map, hlength, MAX_SIZE]
    omega
  · intro txundo htxundo
    obtain ⟨entry, hentry, rfl⟩ := mem_map.mp htxundo
    have hmem : entry.1 ∈ rest := hfst ▸ mem_map_of_mem hentry
    have hinputs : entry.1.vin.length ≤ blockSize block :=
      (length_le_blockSize (h.shaped.vtx_eq ▸ mem_cons_of_mem coinbase hmem)).1
    rw [txUndo, (h.ordinary entry.1 hmem).not_coinBase, MAX_SIZE]
    simp only [Bool.false_eq_true, if_false, length_map]
    omega
  · intro txundo htxundo coin hcoin
    obtain ⟨entry, hentry, rfl⟩ := mem_map.mp htxundo
    exact storable_blockViews h.others h.ordinary h.pos h.height h.regular_next entry hentry coin
      hcoin

/-! ## The block -/

/-- `DisconnectBlock` first takes back the transactions after the coinbase. -/
theorem disconnectBlock_eq :
    disconnectBlock env pindex (some (undoOf env pindex view block.vtx)) block hashPrev other =
      match disconnectTxs env pindex (undoPairs env pindex next rest) (other, true) with
      | none => (.DISCONNECT_FAILED, other)
      | some st =>
        let st := spendOutputs (coinbase.getHash env.host.hash256)
          (sameOutput coinbase pindex.nHeight)
          (isProtocolV12 env.params pindex.nTime.toNat) coinbase.vout 0 st
        (if st.2 then .DISCONNECT_OK else .DISCONNECT_UNCLEAN,
          { st.1 with bestBlock := hashPrev }) := by
  have hfst := fst_blockViews h.others
  have hlength := congrArg length hfst
  rw [length_map] at hlength
  have hzip (entries : List (CTransaction × CCoinsView)) (hentries : entries.map Prod.fst = rest) :
      rest.zip ((entries.map fun entry => txUndo entry.1 entry.2).map some) =
        entries.map fun entry => (entry.1, some (txUndo entry.1 entry.2)) := by
    rw [← hentries, map_map, zip_map']
    rfl
  unfold disconnectBlock
  rw [h.undoOf_eq, h.shaped.vtx_eq]
  dsimp only
  rw [length_map, hlength, length_cons, if_neg (not_not.mpr rfl),
    zip_cons_cons, hzip _ hfst, disconnectTxs, undoPairs]
  generalize disconnectTxs env pindex (map _ (blockViews env pindex next rest))
    (other, true) = restored
  cases restored with
  | none => rfl
  | some st => rfl

/-- The coins after disconnecting the block: the coinbase outputs are gone, and elsewhere the
coins are those before the other transactions wherever these have touched them.  Without an
unspent genesis output, a block that spends one cannot be disconnected. -/
theorem disconnectBlock_cases (hother : Regular env.host.hash256 genesis other.coins)
    (hashPrev : Uint256) : ((SpendsGenesis env genesis block.vtx →
        HasOutput other.coins (genesis.getHash env.host.hash256)) ∧
      ∃ clean, disconnectBlock env pindex (some (undoOf env pindex view block.vtx)) block
          hashPrev other = (if clean then .DISCONNECT_OK else .DISCONNECT_UNCLEAN,
            ⟨eraseAll (overlay (rest.flatMap (touched env pindex)) next.coins other.coins)
              ((createdIn env pindex coinbase).map Prod.fst), hashPrev⟩) ∧
        (other.coins = final.coins → clean = true)) ∨
    (¬ (SpendsGenesis env genesis block.vtx →
        HasOutput other.coins (genesis.getHash env.host.hash256)) ∧
      disconnectBlock env pindex (some (undoOf env pindex view block.vtx)) block hashPrev other =
        (.DISCONNECT_FAILED, other)) := by
  rw [h.disconnectBlock_eq, h.spendsGenesis_iff]
  rcases @disconnectTxs_someIff env pindex genesis rest next final other true h.others h.ordinary
    h.pos h.height h.regular_next hother with
    ⟨hhas, ⟨_, restClean⟩, hrestored, rfl, hrestClean⟩ | ⟨hnone, hfailed⟩
  · obtain ⟨clean, hspent, hclean⟩ := spendOutputs_eq env pindex coinbase
      { other with coins := overlay (rest.flatMap (touched env pindex)) next.coins other.coins }
      restClean
    refine .inl ⟨hhas, clean, ?_, fun hsame => ?_⟩
    · rw [hrestored]
      dsimp only
      rw [hspent]
    · rw [← hrestClean hsame]
      refine hclean h.nodup_coinbase fun entry hentry => ?_
      rw [overlay_eq_left fun key hkey => by rw [hsame, h.others.coins_of_notMem hkey],
        h.applied.view_eq]
      exact writeAll_of_mem h.nodup_coinbase hentry
  · rw [hfailed]
    exact .inr ⟨hnone, rfl⟩

/-- Disconnecting gives the coins back, unless the coinbase has overwritten one or a genesis
output cannot be restored. -/
theorem disconnectBlock_ok_iff (hsame : other.coins = final.coins) :
    disconnectBlock env pindex (some (undoOf env pindex view block.vtx)) block hashPrev other =
        (.DISCONNECT_OK, ⟨view.coins, hashPrev⟩) ↔
      (∀ outpoint ∈ (createdIn env pindex coinbase).map Prod.fst, view.coins outpoint = none) ∧
        (SpendsGenesis env genesis block.vtx →
          HasOutput other.coins (genesis.getHash env.host.hash256)) := by
  have hother : Regular env.host.hash256 genesis other.coins := hsame ▸ h.regular_final
  rcases h.disconnectBlock_cases hother hashPrev with
    ⟨hhas, clean, hresult, hclean⟩ | ⟨hhas, hfailed⟩
  · rw [hresult, hclean hsame,
      overlay_eq_left fun key hkey => by rw [hsame, h.others.coins_of_notMem hkey]]
    simp only [if_true, Prod.mk.injEq, mk.injEq, true_and, and_true]
    constructor
    · intro hequal
      refine ⟨fun outpoint hmem => ?_, hhas⟩
      rw [← hequal, eraseAll_of_mem hmem]
    · intro hfree
      funext outpoint
      by_cases hmem : outpoint ∈ (createdIn env pindex coinbase).map Prod.fst
      · rw [eraseAll_of_mem hmem, hfree.1 outpoint hmem]
      · rw [eraseAll_of_notMem hmem, h.coins_next hmem]
  · rw [hfailed]
    simp only [Prod.mk.injEq, reduceCtorEq, false_and, false_iff, not_and]
    exact fun _ hall => hhas hall

end BlockRun

variable {pindex' : CBlockIndex} {txs : List CTransaction}

/-! ## From ConnectBlock to the coins -/

/-- Only the height and the time of an entry matter for its coins. -/
theorem Applies.congr (h : Applies env pindex txs view final)
    (hheight : pindex'.nHeight = pindex.nHeight) (htime : pindex'.nTime = pindex.nTime) :
    Applies env pindex' txs view final := by
  induction h with
  | nil view => exact .nil view
  | cons hfirst hrest ih => exact .cons (by rw [hheight, htime]; exact hfirst) ih

theorem disconnectBlock_congr {blockUndo : Option CBlockUndo}
    (hheight : pindex'.nHeight = pindex.nHeight) (htime : pindex'.nTime = pindex.nTime) :
    disconnectBlock env pindex' blockUndo block hashPrev view =
      disconnectBlock env pindex blockUndo block hashPrev view := by
  have htx (tx : CTransaction) (txundo : Option CTxUndo) (st : CCoinsView × Bool) :
      disconnectTx env pindex' tx txundo st = disconnectTx env pindex tx txundo st := by
    unfold disconnectTx
    rw [hheight, htime]
  have htxs (list : List (CTransaction × Option CTxUndo)) (st : CCoinsView × Bool) :
      disconnectTxs env pindex' list st = disconnectTxs env pindex list st := by
    induction list with
    | nil => rfl
    | cons entry rest ih =>
      rw [disconnectTxs, disconnectTxs, ih]
      simp only [htx]
  unfold disconnectBlock
  simp only [htxs]

theorem applies_of_forEach {loop : TxLoop}
    (hok : (Outcome.forEach (connectTx env ctx pindex ancestors block) txs loop).result =
      .ok ()) :
    Applies env pindex txs loop.view
        (Outcome.forEach (connectTx env ctx pindex ancestors block) txs loop).state.view ∧
      ∀ tx ∈ txs, ∀ out ∈ tx.vout, moneyRange out.value = true := by
  induction txs generalizing loop with
  | nil => exact ⟨.nil loop.view, by simp⟩
  | cons tx rest ih =>
    obtain ⟨hfirst, hrest⟩ := Outcome.forEach_cons_eq_ok_iff.mp hok
    obtain ⟨hview, ⟨value, hvalue⟩, -⟩ := connectTx_of_ok hfirst
    obtain ⟨happlies, hvalues⟩ := ih hrest
    rw [Outcome.state_forEach_cons_of_ok hfirst]
    refine ⟨.cons hview happlies, fun other hother => ?_⟩
    rcases mem_cons.mp hother with rfl | hmem
    · exact CTransaction.moneyRange_of_getValueOut hvalue
    · exact hvalues other hmem

/-- The coins of a block that `ConnectBlock` has connected. -/
structure ConnectedCoins (env : Env) (st final : ConnectState) : Prop where
  height : final.pindex.nHeight = st.pindex.nHeight
  time : final.pindex.nTime = st.pindex.nTime
  applies : ∃ view, Applies env st.pindex st.block.vtx st.view view ∧
    final.view.coins = view.coins
  value : ∀ tx ∈ st.block.vtx, ∀ out ∈ tx.vout, moneyRange out.value = true

section

variable (hok : (connectBlock env kernel ctx ancestors false st).result = .ok ())
include hok

/-- The transactions of a connected block, from the coins that the loop starts with. -/
theorem applies_of_connectBlock :
    ∃ view, Applies env st.pindex st.block.vtx (loopStart env kernel ancestors false st).view view ∧
      (connectBlock env kernel ctx ancestors false st).state.view.coins = view.coins ∧
      ∀ tx ∈ st.block.vtx, ∀ out ∈ tx.vout, moneyRange out.value = true := by
  obtain ⟨-, -, hfinished⟩ := connectBlock_of_ok hok
  obtain ⟨hheight, htime, -⟩ :=
    CBlockIndex.fields_of_unstaked_eq (@unstaked_loopStart env kernel ancestors st)
  obtain ⟨happlies, hvalues⟩ := applies_of_forEach hfinished.loop
  have hcoins := congrArg coins hfinished.view_eq
  rw [← CBlock.vtx_eq_of_content_eq (@content_loopStart env kernel ancestors false st)]
  exact ⟨_, happlies.congr hheight.symm htime.symm, hcoins, hvalues⟩

theorem entry_of_connectBlock :
    (connectBlock env kernel ctx ancestors false st).state.pindex.nHeight = st.pindex.nHeight ∧
      (connectBlock env kernel ctx ancestors false st).state.pindex.nTime = st.pindex.nTime := by
  obtain ⟨-, -, hfinished⟩ := connectBlock_of_ok hok
  obtain ⟨nClaims, nStatus, hentry⟩ := hfinished.pindex_eq
  obtain ⟨hheight, htime, -⟩ :=
    CBlockIndex.fields_of_unstaked_eq (@unstaked_loopStart env kernel ancestors st)
  rw [hentry]
  exact ⟨hheight, htime⟩

theorem connectedCoins_of_ok
    (hnot : st.block.getHash env.host.hash256 ≠ env.params.hashGenesisBlock) :
    ConnectedCoins env st (connectBlock env kernel ctx ancestors false st).state := by
  have hview : (loopStart env kernel ancestors false st).view = st.view := by
    have hstaged := @connectPrologue_staged env kernel ancestors false st
    have hhash : (connectPrologue env kernel ancestors false st).state.block.getHash
        env.host.hash256 = st.block.getHash env.host.hash256 :=
      congrArg (CBlockHeader.getHash env.host.hash256)
        (CBlock.header_eq_of_content_eq hstaged.content)
    rw [loopStart, setGenesisBest, hhash, if_neg (by simp [hnot]), hstaged.view]
  obtain ⟨view, happlies, hcoins, hvalues⟩ := applies_of_connectBlock hok
  rw [hview] at happlies
  obtain ⟨hheight, htime⟩ := entry_of_connectBlock hok
  exact ⟨hheight, htime, ⟨view, happlies, hcoins⟩, hvalues⟩

/-- A block that was connected has passed the tests of `CheckBlock`, now or before. -/
theorem checkBlockBody_of_connectBlock
    (hflag : st.block.fChecked = true → checkBlockBody env st.block = .ok ()) :
    checkBlockBody env st.block = .ok () := by
  by_cases hchecked : st.block.fChecked = true
  · exact hflag hchecked
  · obtain ⟨hprologue, -, -⟩ := connectBlock_of_ok hok
    have htests := ((checkBlock_ok_iff (Bool.eq_false_iff.mpr hchecked)).mp
      (checkBlock_of_prologue hprologue)).1
    exact ((checkBlockTests_ok_iff st.block).mp htests).2.2

variable (hview : st.view.coins = fun _ => none) (hvtx : st.block.vtx = [genesis])
include hview hvtx

/-- The coins after the genesis block: outputs of its only transaction. -/
theorem coins_of_genesisBlock :
    (connectBlock env kernel ctx ancestors false st).state.view.coins =
      writeAll (fun _ => none) (createdIn env st.pindex genesis) := by
  obtain ⟨final, happlies, hcoins, -⟩ := applies_of_connectBlock hok
  have hempty (keys : List COutPoint) :
      eraseAll (loopStart env kernel ancestors false st).view.coins keys = fun _ => none := by
    funext outpoint
    rw [view_loopStart, hview, eraseAll]
    split_ifs <;> rfl
  rw [hvtx] at happlies
  rw [hcoins]
  cases happlies with
  | cons hfirst hrest =>
    cases hrest with
    | nil =>
      rw [(applied_of_updateCoins hfirst).view_eq]
      rw [hempty]
      rfl

theorem mem_createdIn_of_genesisBlock {outpoint : COutPoint} {coin : Coin}
    (hcoin : (connectBlock env kernel ctx ancestors false st).state.view.coins outpoint =
      some coin) : (outpoint, coin) ∈ createdIn env st.pindex genesis := by
  rw [coins_of_genesisBlock hok hview hvtx] at hcoin
  exact (mem_or_of_writeAll hcoin).resolve_right (by simp)

/-- They are regular. -/
theorem regular_of_genesisBlock (hheight : st.pindex.nHeight = 0)
    (hvalue : ∀ out ∈ genesis.vout, moneyRange out.value = true) :
    Regular env.host.hash256 genesis
      (connectBlock env kernel ctx ancestors false st).state.view.coins := by
  have hcases (outpoint : COutPoint) (coin : Coin)
      (hcoin : (connectBlock env kernel ctx ancestors false st).state.view.coins
        outpoint = some coin) :
      outpoint.hash = genesis.getHash env.host.hash256 ∧ coin.Storable ∧
        coin = genesis.coinOf 0 coin.out := by
    have hmem := mem_createdIn_of_genesisBlock hok hview hvtx hcoin
    obtain ⟨hhash, out, hout, hkept, hmade⟩ := mem_createdCoins hmem
    dsimp only at hhash hmade
    rw [skipsOutput, Bool.or_eq_false_iff] at hkept
    rw [hheight] at hmade
    rw [hmade]
    exact ⟨hhash, ⟨hvalue out hout, hkept.1, by simp [CTransaction.coinOf]⟩, rfl⟩
  exact ⟨fun outpoint coin hcoin => (hcases outpoint coin hcoin).2.1,
    fun outpoint coin hcoin _ => (hcases outpoint coin hcoin).1,
    fun outpoint coin hcoin _ => (hcases outpoint coin hcoin).2.2⟩

end

/-- A connected block runs from its coinbase to its last transaction. -/
theorem blockRun_of_connectedCoins
    (hflag : st.block.fChecked = true → checkBlockBody env st.block = .ok ())
    (hcoins : Regular env.host.hash256 genesis st.view.coins) (hother : ∀ tx ∈ st.block.vtx,
      tx.getHash env.host.hash256 ≠ genesis.getHash env.host.hash256)
    (hpos : 0 < st.pindex.nHeight) (hheight : st.pindex.nHeight < 2 ^ 30)
    {reached : ConnectState} (hconnected : ConnectedCoins env st reached)
    (hok : (connectBlock env kernel ctx ancestors false st).result = .ok ()) :
    ∃ coinbase rest next final,
      BlockRun env genesis st.pindex st.block coinbase rest st.view next final ∧
        reached.view.coins = final.coins := by
  obtain ⟨final, happlies, hfinal⟩ := hconnected.applies
  obtain ⟨coinbase, rest, hshape⟩ :=
    shaped_of_checkBlockBody (checkBlockBody_of_connectBlock hok hflag)
  have hvalue := hconnected.value
  rw [hshape.vtx_eq] at happlies hother hvalue
  cases happlies with
  | @cons _ _ _ next _ hfirst hrest =>
    refine ⟨coinbase, rest, next, final, ?_, hfinal⟩
    exact
      { shaped := hshape
        first := hfirst
        others := hrest
        not_genesis := hother coinbase (.head _)
        value := hvalue coinbase (.head _)
        ordinary := fun tx htx => ⟨hshape.others tx htx,
          hother tx (mem_cons_of_mem coinbase htx),
          hvalue tx (mem_cons_of_mem coinbase htx)⟩
        pos := hpos
        height := hheight
        regular := hcoins }

/-! ## The inverse -/

/-- The hash of the parent of a block, as `pprev->GetBlockHash()`. -/
def parentHash (ancestors : IndexChain) : Uint256 :=
  (ancestors.head?.map CBlockIndex.hashBlock).getD 0

/-- The coinbase of the block takes the place of an unspent coin. -/
def OverwritesCoin (env : Env) (st : ConnectState) : Prop :=
  ∃ coinbase ∈ st.block.vtx.head?, ∃ outpoint ∈ (createdIn env st.pindex coinbase).map Prod.fst,
    st.view.coins outpoint ≠ none

/-- `DisconnectBlock` on the view after a block, with the undo data from the file. -/
def disconnected (env : Env) (keys : PubKeys) (ancestors : IndexChain) (st final : ConnectState) :
    DisconnectResult × CCoinsView :=
  let file := undoWriteToDisk keys env.host.hash256 (parentHash ancestors)
    (undoOf env st.pindex st.view st.block.vtx)
  disconnectBlock env final.pindex
    (undoReadFromDisk keys env.host.hash256 (parentHash ancestors) file) st.block
    (parentHash ancestors) final.view

/-- Disconnecting a block that was connected restores the coins exactly if the block overwrote
no coin and, if it spends genesis outputs, leaves one of them: the height zero in their undo
data counts as missing, and is then looked up at another output of the transaction. -/
theorem disconnect_inverts_iff {keys : PubKeys} (hkeys : keys.Restores)
    (hflag : st.block.fChecked = true → checkBlockBody env st.block = .ok ())
    (hcoins : Regular env.host.hash256 genesis st.view.coins) (hother : ∀ tx ∈ st.block.vtx,
      tx.getHash env.host.hash256 ≠ genesis.getHash env.host.hash256)
    (hnot : st.block.getHash env.host.hash256 ≠ env.params.hashGenesisBlock)
    (hpos : 0 < st.pindex.nHeight) (hheight : st.pindex.nHeight < 2 ^ 30)
    (hok : (connectBlock env kernel ctx ancestors false st).result = .ok ()) :
    disconnected env keys ancestors st
        (connectBlock env kernel ctx ancestors false st).state =
        (.DISCONNECT_OK, ⟨st.view.coins, parentHash ancestors⟩) ↔
      ¬ OverwritesCoin env st ∧
        (SpendsGenesis env genesis st.block.vtx →
          HasOutput (connectBlock env kernel ctx ancestors false st).state.view.coins
            (genesis.getHash env.host.hash256)) := by
  have hconnected := connectedCoins_of_ok hok hnot
  obtain ⟨coinbase, rest, next, final, hrun, hfinal⟩ :=
    blockRun_of_connectedCoins hflag hcoins hother hpos hheight hconnected hok
  unfold disconnected
  dsimp only
  rw [undoReadFromDisk_undoWriteToDisk hkeys _ _ hrun.storable_undoOf,
    disconnectBlock_congr hconnected.height hconnected.time, hrun.disconnectBlock_ok_iff hfinal]
  refine and_congr_left' ?_
  unfold OverwritesCoin
  rw [hrun.shaped.vtx_eq]
  simp

namespace SmallNet

/-- No curve: no uncompressed key is valid. -/
def keys : PubKeys := ⟨fun _ => false, fun _ => none⟩

theorem restores_keys : keys.Restores := fun _ _ _ hvalid => absurd hvalid (by simp [keys])

section

variable {env : Env} (hok : passed (connect env [] blank genesisBlock).result)
include hok

theorem connectBlock_genesis : (connectBlock env stakeKernel ordinary [] false
    (onTop blank 0 genesisBlock)).result = .ok () := passed_iff.mp hok

omit hok in
theorem view_second (block : CBlock) : (second env block).view =
    (connectBlock env stakeKernel ordinary [] false (onTop blank 0 genesisBlock)).state.view := by
  simp only [second, onTop, reach, connect, length_nil]

theorem mem_createdIn_second {block : CBlock} {outpoint : COutPoint} {coin : Coin}
    (hcoin : (second env block).view.coins outpoint = some coin) :
    (outpoint, coin) ∈ createdIn env (onTop blank 0 genesisBlock).pindex genesisTx := by
  rw [view_second] at hcoin
  exact mem_createdIn_of_genesisBlock (connectBlock_genesis hok) rfl rfl hcoin

theorem regular_second (block : CBlock) :
    Regular env.host.hash256 genesisTx (second env block).view.coins := by
  rw [view_second]
  exact regular_of_genesisBlock (connectBlock_genesis hok) rfl rfl rfl (by decide +kernel)

end

end SmallNet

open SmallNet in
/-- A block that pays a claim from one of three genesis outputs is taken back. -/
theorem disconnect_inverts_snapshotBlock :
    disconnected (node false false) keys (genesisChain (node false false))
        (second (node false false) snapshotBlock)
        (connectBlock (node false false) stakeKernel ordinary (genesisChain (node false false))
          false (second (node false false) snapshotBlock)).state =
      (.DISCONNECT_OK, ⟨(second (node false false) snapshotBlock).view.coins,
        parentHash (genesisChain (node false false))⟩) := by
  have hcoins : Regular (node false false).host.hash256 genesisTx
      (second (node false false) snapshotBlock).view.coins :=
    regular_second (by decide +kernel) snapshotBlock
  have hfree : ∀ outpoint ∈ (createdIn (node false false)
      (second (node false false) snapshotBlock).pindex (coinbase 1)).map Prod.fst,
      (second (node false false) snapshotBlock).view.coins outpoint = none := by
    decide +kernel
  refine (disconnect_inverts_iff restores_keys (fun hchecked => absurd hchecked (by decide +kernel))
    hcoins (by decide +kernel) (by decide +kernel) (by decide +kernel) (by decide +kernel)
    (passed_iff.mp (by decide +kernel))).mpr ⟨?_, fun _ => ⟨1, by decide, by decide +kernel⟩⟩
  rintro ⟨first, hfirst, outpoint, hmem, hne⟩
  obtain rfl : coinbase 1 = first := Option.some.inj hfirst
  exact hne (hfree outpoint hmem)

namespace SmallNet

/-- The second block cannot be disconnected if it spends all of the genesis outputs. -/
theorem disconnected_of_all_spent {env : Env} {block : CBlock}
    (hfirst : passed (connect env [] blank genesisBlock).result)
    (hfresh : (second env block).block.fChecked = false)
    (hother : ∀ tx ∈ (second env block).block.vtx,
      tx.getHash env.host.hash256 ≠ genesisTx.getHash env.host.hash256)
    (hnot : (second env block).block.getHash env.host.hash256 ≠ env.params.hashGenesisBlock)
    (hspends : SpendsGenesis env genesisTx (second env block).block.vtx)
    (hspent : ∀ entry ∈ createdIn env (onTop blank 0 genesisBlock).pindex genesisTx,
      ∃ tx ∈ (second env block).block.vtx, entry.1 ∈ tx.spent)
    (hok : (connectBlock env stakeKernel ordinary (genesisChain env) false
      (second env block)).result = .ok ()) :
    (disconnected env keys (genesisChain env) (second env block)
      (connectBlock env stakeKernel ordinary (genesisChain env) false (second env block)).state).1 =
      .DISCONNECT_FAILED := by
  have hconnected := connectedCoins_of_ok hok hnot
  have hheight : (second env block).pindex.nHeight = 1 := rfl
  obtain ⟨coinbase, rest, next, final, hrun, hfinal⟩ :=
    blockRun_of_connectedCoins (fun hchecked => absurd hchecked (by simp [hfresh]))
      (regular_second hfirst block) hother (by omega) (by omega) hconnected hok
  have hregular : Regular env.host.hash256 genesisTx (connectBlock env stakeKernel ordinary
      (genesisChain env) false (second env block)).state.view.coins := by
    rw [hfinal]
    exact hrun.regular_final
  -- What is left of the genesis transaction would be one of its outputs, all of them spent.
  have hnone : ¬ HasOutput (connectBlock env stakeKernel ordinary (genesisChain env) false
      (second env block)).state.view.coins (genesisTx.getHash env.host.hash256) := by
    obtain ⟨view, happlies, hview⟩ := hconnected.applies
    rintro ⟨n, -, hsome⟩
    rw [hview] at hsome
    rcases happlies.genesis_cases hother (show COutPoint.hash ⟨_, UInt32.ofNat n⟩ = _ from rfl)
      with ⟨hnot, hsame⟩ | ⟨-, hnone⟩
    · obtain ⟨coin, hthere⟩ := Option.ne_none_iff_exists'.mp (hsame ▸ hsome)
      obtain ⟨tx, htx, hmem⟩ := hspent _ (mem_createdIn_second hfirst hthere)
      exact hnot (mem_flatMap.mpr ⟨tx, htx, mem_append_left _ hmem⟩)
    · exact hsome hnone
  unfold disconnected
  dsimp only
  rw [undoReadFromDisk_undoWriteToDisk restores_keys _ _ hrun.storable_undoOf,
    disconnectBlock_congr hconnected.height hconnected.time,
    ((hrun.disconnectBlock_cases hregular _).resolve_left fun hhas => hnone (hhas.1 hspends)).2]

end SmallNet

open SmallNet in
/-- A block that spends the last genesis outputs is connected and cannot be disconnected. -/
theorem last_genesis_outputs_stuck :
    (connectBlock (node false false) stakeKernel ordinary (genesisChain (node false false)) false
        (second (node false false) lastGenesisBlock)).result = .ok () ∧
      (disconnected (node false false) keys (genesisChain (node false false))
        (second (node false false) lastGenesisBlock)
        (connectBlock (node false false) stakeKernel ordinary (genesisChain (node false false))
          false (second (node false false) lastGenesisBlock)).state).1 = .DISCONNECT_FAILED := by
  have hok : (connectBlock (node false false) stakeKernel ordinary
      (genesisChain (node false false)) false
      (second (node false false) lastGenesisBlock)).result = .ok () :=
    passed_iff.mp (by decide +kernel)
  have hspends : SpendsGenesis (node false false) genesisTx
      (second (node false false) lastGenesisBlock).block.vtx := by
    unfold SpendsGenesis
    decide +kernel
  exact ⟨hok, disconnected_of_all_spent (by decide +kernel) (by decide +kernel) (by decide +kernel)
    (by decide +kernel) hspends (by decide +kernel) hok⟩

end Patchcoin
