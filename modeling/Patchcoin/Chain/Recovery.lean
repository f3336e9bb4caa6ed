import Patchcoin.Chain.Replay

/-!
# Recovery from a crash

At each outpoint the database holds, after a crash, the coin at the old tip or
the one at the new tip.  Write `F` for the coins at the fork.  Both directions of
the replay are overlays, whatever the database holds:

```text
rollback      puts F on the outpoints that the old branch touches
rollforward   puts the coins at the new tip, with the times that the block files have for
              them, on the outpoints that the new branch touches
```

An outpoint that neither branch touches has the same coin at the old tip, at the
fork and at the new tip.  So the result is the set of coins at the new tip.

Three things break this.  A block that the node has made itself has lost the times of its
transactions in the file (`timeOnDisk`).  The outputs of the genesis transaction are restored from
undo records without metadata, so one of them must have survived the crash
(`rollback_someIff`).  And if there was no old tip, the replay starts with the
block after the genesis block, so the genesis outputs come back only as far as
they had been written.
-/

namespace Patchcoin

open Ledger List

variable {env : Env} {keys : PubKeys} {genesis : CTransaction} {kernel : Kernel}
  {ctx : Circumstances} {pindex pindex' : CBlockIndex}

/-! ## Only the height and the time of an entry matter -/

section

variable (hheight : pindex'.nHeight = pindex.nHeight) (htime : pindex'.nTime = pindex.nTime)
include hheight htime

theorem undoOf_congr (view : CCoinsView) (txs : List CTransaction) :
    undoOf env pindex' view txs = undoOf env pindex view txs := by
  rw [undoOf, undoOf, blockViews_congr hheight htime]

theorem createdIn_congr (tx : CTransaction) :
    createdIn env pindex' tx = createdIn env pindex tx := by
  rw [createdIn, createdIn, hheight, htime]

end

theorem BlockRun.congr {block : CBlock} {coinbase : CTransaction} {rest : List CTransaction}
    {view next final : CCoinsView}
    (h : BlockRun env genesis pindex block coinbase rest view next final)
    (hheight : pindex'.nHeight = pindex.nHeight) (htime : pindex'.nTime = pindex.nTime) :
    BlockRun env genesis pindex' block coinbase rest view next final :=
  { shaped := h.shaped
    first := by rw [hheight, htime]; exact h.first
    others := h.others.congr hheight htime
    not_genesis := h.not_genesis
    value := h.value
    ordinary := h.ordinary
    pos := by rw [hheight]; exact h.pos
    height := by rw [hheight]; exact h.height
    regular := h.regular }

/-! ## Chains on disk -/

/-- A chain of stored blocks, connected by `ConnectBlock` from the genesis block on, and the
coins at its tip.  The undo files are intact.  Coinbases have different txids, so none
overwrites a coin, and no transaction has the txid of the genesis transaction. -/
inductive StoredChain (env : Env) (keys : PubKeys) (genesis : CTransaction) :
    List StoredBlock → (COutPoint → Option Coin) → Prop
  | genesis {kernel : Kernel} {ctx : Circumstances} {st : ConnectState}
      {undo : List UInt8} (hvtx : st.block.vtx = [genesis])
      (hhash : st.block.getHash env.host.hash256 = env.params.hashGenesisBlock)
      (hheight : st.pindex.nHeight = 0) (hview : st.view.coins = fun _ => none)
      (hok : (connectBlock env kernel ctx [] false st).result = .ok ()) :
      StoredChain env keys genesis
        [⟨(connectBlock env kernel ctx [] false st).state.pindex, st.block, undo⟩]
        (connectBlock env kernel ctx [] false st).state.view.coins
  | connect {kernel : Kernel} {ctx : Circumstances} {st : ConnectState}
      {chain : List StoredBlock} {coins : COutPoint → Option Coin}
      (hchain : StoredChain env keys genesis chain coins) (hview : st.view.coins = coins)
      (hheight : st.pindex.nHeight = chain.length) (hbound : chain.length < 2 ^ 30)
      (hnot : st.block.getHash env.host.hash256 ≠ env.params.hashGenesisBlock)
      (hflag : st.block.fChecked = true → checkBlockBody env st.block = .ok ())
      (hother : ∀ tx ∈ st.block.vtx,
        tx.getHash env.host.hash256 ≠ genesis.getHash env.host.hash256)
      (hfree : ¬ OverwritesCoin env st)
      (hok : (connectBlock env kernel ctx (entriesOf chain) false st).result = .ok ()) :
      StoredChain env keys genesis
        (⟨(connectBlock env kernel ctx (entriesOf chain) false st).state.pindex, st.block,
          undoWriteToDisk keys env.host.hash256 (tipHash chain)
            (undoOf env st.pindex st.view st.block.vtx)⟩ :: chain)
        (connectBlock env kernel ctx (entriesOf chain) false st).state.view.coins

/-- A stored block between the coins before it and after it. -/
structure StoredBlock.Extends (env : Env) (keys : PubKeys) (genesis : CTransaction)
    (stored : StoredBlock) (chain : List StoredBlock) (view final : CCoinsView) : Prop where
  run : ∃ coinbase rest next,
    BlockRun env genesis stored.pindex stored.block coinbase rest view next final ∧
      ∀ outpoint ∈ (createdIn env stored.pindex coinbase).map Prod.fst, view.coins outpoint = none
  undo : stored.undo = undoWriteToDisk keys env.host.hash256 (tipHash chain)
    (undoOf env stored.pindex view stored.block.vtx)

variable {chain : List StoredBlock} {coins : COutPoint → Option Coin} {stored : StoredBlock}

section

variable (h : StoredChain env keys genesis chain coins)
include h

theorem StoredChain.ne_nil : chain ≠ [] := by
  cases h with
  | genesis => exact cons_ne_nil _ _
  | connect => exact cons_ne_nil _ _

/-- The coins of a chain are regular, and each block after the first extends what is below. -/
theorem StoredChain.regular_extends :
    Regular env.host.hash256 genesis coins ∧ ∀ stored rest, chain = stored :: rest → rest ≠ [] →
      ∃ view final, StoredChain env keys genesis rest view.coins ∧ final.coins = coins ∧
        stored.Extends env keys genesis rest view final := by
  induction h with
  | @genesis kernel ctx st undo hvtx hhash hheight hview hok =>
    refine ⟨regular_of_genesisBlock hok hview hvtx hheight ?_, ?_⟩
    · obtain ⟨-, -, -, hvalues⟩ := applies_of_connectBlock hok
      exact hvalues genesis (hvtx ▸ .head _)
    · intro stored rest heq hne
      exact absurd (cons.inj heq).2.symm hne
  | @connect kernel ctx st chain coins hchain hview hheight hbound hnot hflag hother hfree hok
      ih =>
    have hpos : 0 < st.pindex.nHeight := by
      rw [hheight]
      exact length_pos_of_ne_nil hchain.ne_nil
    have hconnected := connectedCoins_of_ok hok hnot
    obtain ⟨coinbase, rest, next, final, hrun, hfinal⟩ := blockRun_of_connectedCoins hflag
      (hview ▸ ih.1) hother hpos (hheight ▸ hbound) hconnected hok
    refine ⟨hfinal ▸ hrun.regular_final, ?_⟩
    rintro stored below heq -
    obtain ⟨rfl, rfl⟩ := cons.inj heq
    refine ⟨st.view, final, hview ▸ hchain, hfinal.symm,
      ⟨coinbase, rest, next, hrun.congr hconnected.height hconnected.time, ?_⟩, ?_⟩
    · intro outpoint hmem
      rw [createdIn_congr hconnected.height hconnected.time] at hmem
      by_contra hne
      refine hfree ⟨coinbase, ?_, outpoint, hmem, hne⟩
      rw [hrun.shaped.vtx_eq]
      rfl
    · rw [undoOf_congr hconnected.height hconnected.time]

theorem StoredChain.regular :
    Regular env.host.hash256 genesis coins := h.regular_extends.1

end

/-- The height of an entry is the number of its ancestors. -/
theorem StoredChain.height (h : StoredChain env keys genesis (stored :: chain) coins) :
    stored.pindex.nHeight = chain.length := by
  cases h with
  | genesis hvtx hhash hheight hview hok => exact (entry_of_connectBlock hok).1.trans hheight
  | connect hchain hview hheight hbound hnot hflag hother hfree hok =>
    exact (entry_of_connectBlock hok).1.trans hheight

theorem StoredChain.extends (h : StoredChain env keys genesis (stored :: chain) coins)
    (hne : chain ≠ []) :
    ∃ view final, StoredChain env keys genesis chain view.coins ∧ final.coins = coins ∧
      stored.Extends env keys genesis chain view final :=
  h.regular_extends.2 stored chain rfl hne

/-! ## One block -/

/-- The outpoints that a stored block touches. -/
def StoredBlock.touchedBy (env : Env) (stored : StoredBlock) : List COutPoint :=
  stored.block.vtx.flatMap (touched env stored.pindex)

/-- The outpoints that a branch touches. -/
def touchedByBranch (env : Env) (branch : List StoredBlock) : List COutPoint :=
  branch.flatMap (StoredBlock.touchedBy env)

theorem touchedByBranch_cons (env : Env) (stored : StoredBlock) (branch : List StoredBlock) :
    touchedByBranch env (stored :: branch) = stored.touchedBy env ++ touchedByBranch env branch :=
  flatMap_cons

theorem disconnectBlock_readBlockFromDisk (undo : Option CBlockUndo) (hashPrev : Uint256)
    (view : CCoinsView) :
    disconnectBlock env pindex undo stored.readBlockFromDisk hashPrev view =
      disconnectBlock env pindex undo stored.block hashPrev view := by
  have htx (tx : CTransaction) : disconnectTx env pindex tx.received =
      disconnectTx env pindex tx := by
    funext txundo st
    unfold disconnectTx
    rw [CTransaction.getHash_received]
    rfl
  have htxs (txs : List CTransaction) (undos : List (Option CTxUndo)) (st : CCoinsView × Bool) :
      disconnectTxs env pindex ((txs.map CTransaction.received).zip undos) st =
        disconnectTxs env pindex (txs.zip undos) st := by
    induction txs generalizing undos with
    | nil => rfl
    | cons tx rest ih =>
      cases undos with
      | nil => rfl
      | cons undo undos => rw [map_cons, zip_cons_cons, zip_cons_cons, disconnectTxs, ih, htx]; rfl
  unfold disconnectBlock StoredBlock.readBlockFromDisk
  simp only [length_map, htxs]

/-- Some block of the branch spends an output of the genesis transaction. -/
def BranchSpendsGenesis (env : Env) (genesis : CTransaction) (branch : List StoredBlock) : Prop :=
  ∃ stored ∈ branch, SpendsGenesis env genesis stored.block.vtx

namespace StoredBlock.Extends

variable {view final other : CCoinsView} (h : stored.Extends env keys genesis chain view final)
variable {outpoint : COutPoint}

include h

theorem applies : Applies env stored.pindex stored.block.vtx view final := by
  obtain ⟨coinbase, rest, next, hrun, -⟩ := h.run
  rw [hrun.shaped.vtx_eq]
  exact .cons hrun.first hrun.others

theorem not_genesis : ∀ tx ∈ stored.block.vtx,
    tx.getHash env.host.hash256 ≠ genesis.getHash env.host.hash256 := by
  obtain ⟨coinbase, rest, next, hrun, -⟩ := h.run
  rw [hrun.shaped.vtx_eq]
  intro tx htx
  rcases mem_cons.mp htx with rfl | hmem
  · exact hrun.not_genesis
  · exact (hrun.ordinary tx hmem).not_genesis

theorem pos : 0 < stored.pindex.nHeight := by
  obtain ⟨coinbase, rest, next, hrun, -⟩ := h.run
  exact hrun.pos

theorem coins_of_notMem (hmem : outpoint ∉ stored.touchedBy env) :
    final.coins outpoint = view.coins outpoint := h.applies.coins_of_notMem hmem

theorem rollforwardBlock_eq (other : CCoinsView) : rollforwardBlock env stored other =
    { other with coins := overlay (stored.touchedBy env)
                   (withTimesOnDisk env (branchTxs [stored]) final.coins) other.coins } := by
  have hsingle : branchTxs [stored] = stored.block.vtx.reverse.map (Prod.mk stored.pindex) :=
    flatMap_singleton ..
  rw [hsingle]
  exact h.applies.rollforward_received other

theorem storedUndo_eq (hkeys : keys.Restores) :
    storedUndo env keys stored chain = some (undoOf env stored.pindex view stored.block.vtx) := by
  obtain ⟨coinbase, rest, next, hrun, -⟩ := h.run
  rw [storedUndo, h.undo, undoReadFromDisk_undoWriteToDisk hkeys _ _ hrun.storable_undoOf]

/-- Disconnecting puts the coins before the block on what it touches, or fails for want of a
genesis output. -/
theorem disconnect_cases (hkeys : keys.Restores)
    (hother : Regular env.host.hash256 genesis other.coins) :
    ((SpendsGenesis env genesis stored.block.vtx →
        HasOutput other.coins (genesis.getHash env.host.hash256)) ∧
      ∃ result, result ≠ .DISCONNECT_FAILED ∧
        disconnectBlock env stored.pindex (storedUndo env keys stored chain)
          stored.readBlockFromDisk (tipHash chain) other =
          (result, ⟨overlay (stored.touchedBy env) view.coins other.coins, tipHash chain⟩)) ∨
    (¬ (SpendsGenesis env genesis stored.block.vtx →
        HasOutput other.coins (genesis.getHash env.host.hash256)) ∧
      disconnectBlock env stored.pindex (storedUndo env keys stored chain)
        stored.readBlockFromDisk (tipHash chain) other = (.DISCONNECT_FAILED, other)) := by
  obtain ⟨coinbase, rest, next, hrun, hfree⟩ := h.run
  rw [h.storedUndo_eq hkeys, disconnectBlock_readBlockFromDisk]
  refine (hrun.disconnectBlock_cases hother (tipHash chain)).imp_left ?_
  rintro ⟨hhas, clean, hresult, -⟩
  refine ⟨hhas, if clean then .DISCONNECT_OK else .DISCONNECT_UNCLEAN, ?_, ?_⟩
  · split_ifs
    · exact fun heq => absurd heq (by decide)
    · exact fun heq => absurd heq (by decide)
  · have hkeysEq : stored.touchedBy env = (createdIn env stored.pindex coinbase).map Prod.fst ++
        rest.flatMap (touched env stored.pindex) := by
      rw [touchedBy, hrun.shaped.vtx_eq, flatMap_cons, touched, hrun.spent_coinbase,
        nil_append]
    -- erasing the coinbase outputs puts the coins from before on them, which is none
    have herase (entries : COutPoint → Option Coin) :
        eraseAll entries ((createdIn env stored.pindex coinbase).map Prod.fst) =
          overlay ((createdIn env stored.pindex coinbase).map Prod.fst) view.coins entries := by
      funext outpoint
      by_cases hmem : outpoint ∈ (createdIn env stored.pindex coinbase).map Prod.fst
      · rw [eraseAll_of_mem hmem, overlay_of_mem hmem, hfree outpoint hmem]
      · rw [eraseAll_of_notMem hmem, overlay_of_notMem hmem]
    rw [hresult, herase, overlay_overlay fun outpoint _ hnot => hrun.coins_next hnot, hkeysEq]

/-- The block leaves a genesis output where there was one. -/
theorem hasOutput_overlay_iff (hhas : SpendsGenesis env genesis stored.block.vtx →
      HasOutput other.coins (genesis.getHash env.host.hash256)) :
    HasOutput (overlay (stored.touchedBy env) view.coins other.coins)
        (genesis.getHash env.host.hash256) ↔
      HasOutput other.coins (genesis.getHash env.host.hash256) := by
  refine Patchcoin.hasOutput_overlay_iff (fun key hkey hhash => ?_) fun ⟨key, hkey, hhash⟩ => ?_
  · exact ((h.applies.genesis_cases h.not_genesis hhash).resolve_left fun hnot => hnot.1 hkey).1
  · exact hhas (spendsGenesis_of_touched h.not_genesis hkey hhash)

end StoredBlock.Extends

/-! ## The coins of a chain -/

/-- The transactions of a block lead to the same coins from the same coins. -/
theorem Applies.coins_unique {txs : List CTransaction} {view final view' final' : CCoinsView}
    (h : Applies env pindex txs view final) (h' : Applies env pindex txs view' final')
    (hcoins : view.coins = view'.coins) : final.coins = final'.coins := by
  rw [h.coins_eq, h'.coins_eq, hcoins]

/-- A chain with one block is the genesis block. -/
theorem StoredChain.coins_single (h : StoredChain env keys genesis [stored] coins) :
    coins = writeAll (fun _ => none) (createdIn env stored.pindex genesis) := by
  cases h with
  | @genesis kernel ctx st undo hvtx hhash hheight hview hok =>
    obtain ⟨hsameHeight, hsameTime⟩ := entry_of_connectBlock hok
    rw [coins_of_genesisBlock hok hview hvtx, createdIn_congr hsameHeight hsameTime]
  | connect hchain => exact absurd rfl hchain.ne_nil

/-- The blocks on disk determine the coins. -/
theorem StoredChain.unique {coins' : COutPoint → Option Coin}
    (h : StoredChain env keys genesis chain coins)
    (h' : StoredChain env keys genesis chain coins') : coins = coins' := by
  induction chain generalizing coins coins' with
  | nil => exact absurd rfl h.ne_nil
  | cons stored rest ih =>
    by_cases hrest : rest = []
    · subst hrest
      rw [h.coins_single, h'.coins_single]
    · obtain ⟨view, final, hchain, rfl, hextends⟩ := h.extends hrest
      obtain ⟨view', final', hchain', rfl, hextends'⟩ := h'.extends hrest
      exact hextends.applies.coins_unique hextends'.applies (ih hchain hchain')

variable {count : ℕ} {base : COutPoint → Option Coin}

/-- The rule for the blocks above some block of a chain: what the last one does, from what
the blocks below it do. -/
theorem StoredChain.branch_induction {P : ℕ → List StoredBlock → (COutPoint → Option Coin) → Prop}
    (hbase : P 0 (chain.drop count) base)
    (hbelow : StoredChain env keys genesis (chain.drop count) base)
    (hstep : ∀ {n : ℕ} {stored : StoredBlock} {rest : List StoredBlock} {view final : CCoinsView},
      StoredChain env keys genesis rest view.coins →
      stored.Extends env keys genesis rest view final →
      StoredChain env keys genesis (rest.drop n) base → n < rest.length → P n rest view.coins →
      P (n + 1) (stored :: rest) final.coins)
    (h : StoredChain env keys genesis chain coins) (hcount : count < chain.length) :
    P count chain coins := by
  induction count generalizing chain coins with
  | zero =>
    rw [drop_zero] at hbase hbelow
    rw [h.unique hbelow]
    exact hbase
  | succ count ih =>
    cases chain with
    | nil => cases hcount
    | cons stored rest =>
      rw [length_cons] at hcount
      rw [drop_succ_cons] at hbase hbelow
      have hrest : rest ≠ [] := by
        rintro rfl
        simp at hcount
      obtain ⟨view, final, hchain, rfl, hextends⟩ := h.extends hrest
      have hlt : count < rest.length := by omega
      exact hstep hchain hextends hbelow hlt (ih hbase hbelow hchain hlt)

section

variable (h : StoredChain env keys genesis chain coins)
    (hbelow : StoredChain env keys genesis (chain.drop count) base) (hcount : count < chain.length)
include h hbelow hcount

/-- Off the outpoints that a branch touches, the coins are those below it. -/
theorem StoredChain.coins_of_notMem :
    ∀ outpoint ∉ touchedByBranch env (chain.take count), coins outpoint = base outpoint := by
  refine StoredChain.branch_induction (P := fun n chain coins =>
    ∀ outpoint ∉ touchedByBranch env (chain.take n), coins outpoint = base outpoint)
    (fun _ _ => rfl) hbelow ?_ h hcount
  intro n stored rest view final _ hextends _ _ ih outpoint hmem
  rw [take_succ_cons, touchedByBranch_cons, mem_append, not_or] at hmem
  rw [hextends.coins_of_notMem hmem.1, ih outpoint hmem.2]

/-- Rolling a branch forward puts the coins at its tip on what it touches, with the times that
the block files have for them. -/
theorem StoredChain.rollforward_eq (other : CCoinsView) :
    rollforward env count chain other = { other with
      coins := overlay (touchedByBranch env (chain.take count))
        (withTimesOnDisk env (branchTxs (chain.take count)) coins) other.coins } := by
  refine StoredChain.branch_induction (P := fun n chain coins =>
    rollforward env n chain other = { other with
      coins := overlay (touchedByBranch env (chain.take n))
        (withTimesOnDisk env (branchTxs (chain.take n)) coins) other.coins })
    ?_ hbelow ?_ h hcount
  · simp [rollforward, touchedByBranch]
  · intro n stored rest view final _ hextends _ _ ih
    have hkeys (key : COutPoint) : key ∈ stored.touchedBy env ↔
        ∃ entry ∈ branchTxs [stored], key ∈ touched env entry.1 entry.2 := by
      simp [StoredBlock.touchedBy, branchTxs]
    rw [rollforward, ih, hextends.rollforwardBlock_eq, take_succ_cons, touchedByBranch_cons]
    have htxs : branchTxs (stored :: rest.take n) =
        branchTxs [stored] ++ branchTxs (rest.take n) := by
      rw [branchTxs, ← singleton_append, flatMap_append]
      rfl
    rw [htxs, overlay_withTimesOnDisk hkeys fun outpoint hnot => hextends.coins_of_notMem hnot]

end

/-- Rolling a branch back puts the coins below it on what it touches.  Without an unspent
genesis output, a branch that spends one cannot be rolled back. -/
theorem StoredChain.rollback_someIff (hkeys : keys.Restores)
    (h : StoredChain env keys genesis chain coins)
    (hbelow : StoredChain env keys genesis (chain.drop count) base)
    (hcount : count < chain.length) {other : CCoinsView}
    (hother : Regular env.host.hash256 genesis other.coins) : SomeIff
      (BranchSpendsGenesis env genesis (chain.take count) →
        HasOutput other.coins (genesis.getHash env.host.hash256))
      (rollback env keys count chain other) fun final =>
        final.coins = overlay (touchedByBranch env (chain.take count)) base other.coins := by
  refine StoredChain.branch_induction (P := fun n chain _ =>
    ∀ other : CCoinsView, Regular env.host.hash256 genesis other.coins → SomeIff
      (BranchSpendsGenesis env genesis (chain.take n) →
        HasOutput other.coins (genesis.getHash env.host.hash256))
      (rollback env keys n chain other) fun final =>
        final.coins = overlay (touchedByBranch env (chain.take n)) base other.coins)
    ?_ hbelow ?_ h hcount other hother
  · refine fun other _ => .inl ⟨?_, other, by simp [rollback], ?_⟩
    · rintro ⟨stored, hmem, -⟩
      cases hmem
    · simp [touchedByBranch]
  · intro n stored rest view final hchain hextends hdrop hlt ih other hother
    rw [rollback, if_pos hextends.pos, take_succ_cons]
    rcases hextends.disconnect_cases hkeys hother with
      ⟨hhas, result, hresult, hdisconnect⟩ | ⟨hhas, hfailed⟩
    · have hrest := ih ⟨overlay (stored.touchedBy env) view.coins other.coins, tipHash rest⟩
        (hchain.regular.overlay hother _)
      rw [hextends.hasOutput_overlay_iff hhas] at hrest
      have hdone : SomeIff
          (BranchSpendsGenesis env genesis (stored :: rest.take n) →
            HasOutput other.coins (genesis.getHash env.host.hash256))
          (rollback env keys n rest
            ⟨overlay (stored.touchedBy env) view.coins other.coins, tipHash rest⟩) fun final =>
            final.coins = overlay (touchedByBranch env (stored :: rest.take n)) base
              other.coins := by
        refine hrest.of_iff ⟨?_, ?_⟩ ?_
        · rintro hall ⟨below, hmem, hspent⟩
          exact hall ⟨below, .tail _ hmem, hspent⟩
        · rintro hbelow ⟨below, hmem, hspent⟩
          rcases mem_cons.mp hmem with rfl | hmem
          · exact hhas hspent
          · exact hbelow ⟨below, hmem, hspent⟩
        · intro done hcoins
          rw [hcoins, overlay_overlay fun outpoint _ hnot =>
            hchain.coins_of_notMem hdrop hlt outpoint hnot, overlay_append_comm,
            touchedByBranch_cons]
      rw [hdisconnect]
      cases result with
      | DISCONNECT_OK => exact hdone
      | DISCONNECT_UNCLEAN => exact hdone
      | DISCONNECT_FAILED => exact absurd rfl hresult
    · right
      refine ⟨fun hall => hhas fun hspends => hall ⟨stored, .head _, hspends⟩, ?_⟩
      rw [hfailed]

end Patchcoin
