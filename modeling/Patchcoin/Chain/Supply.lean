import Patchcoin.Chain.Recorded
import Patchcoin.SmallNet

/-!
# The money supply

`ConnectBlock` keeps a money supply for every block: that of the parent, plus
what the transactions of the block pay out, less what they spend.  Two tests
bound it.  A block after the first one mints at most its fees, so it pays out at
most what it spends, and the supply cannot grow.

The supply is a sum of amounts in transactions; the coins are what the
transactions leave in the view.  The induction over the transactions keeps the
two in step: the total of the coins grows by at most what a transaction pays
out, since outputs can be skipped and a coinbase can overwrite a coin, and it
shrinks by exactly what the transaction spends.
-/

namespace Patchcoin

open Ledger Outcome CCoinsView List CTransaction TxLoop

variable {env : Env} {kernel : Kernel} {ctx : Circumstances} {pindex : CBlockIndex}
  {ancestors : IndexChain} {block : CBlock} {tx : CTransaction}
variable {genesis : CBlock} {view : CCoinsView}

/-- The value of a coin. -/
def coinValue (coin : Coin) : ℤ := coin.out.value

/-- The sum of the values of all unspent coins. -/
noncomputable def CCoinsView.totalValue (view : CCoinsView) : ℤ := total coinValue view.coins

/-! ## One transaction -/

theorem CTransaction.valueOutLoop_eq {outs : List CTxOut} {nValueOut sum : ℤ}
    (h : valueOutLoop outs nValueOut = some sum) :
    sum = nValueOut + (outs.map CTxOut.value).sum := by
  induction outs generalizing nValueOut with
  | nil =>
    rw [valueOutLoop] at h
    simpa using (Option.some.inj h).symm
  | cons out rest ih =>
    rw [valueOutLoop] at h
    split_ifs at h
    rw [ih h, map_cons, sum_cons]
    ring

theorem CTransaction.getValueOut_eq {sum : ℤ} (h : tx.getValueOut = some sum) :
    sum = (tx.vout.map CTxOut.value).sum := by
  rw [valueOutLoop_eq h, zero_add]

/-- The coins that are created are worth at most the outputs. -/
theorem sum_createdCoins_le {txid : Uint256} {coin : CTxOut → Coin} {fSkipZeroValue : Bool}
    (hcoin : ∀ out, (coin out).out = out) {outs : List CTxOut} (n : ℕ)
    (hnonneg : ∀ out ∈ outs, 0 ≤ out.value) :
    ((createdCoins txid coin fSkipZeroValue outs n).map fun entry => coinValue entry.2).sum ≤
        (outs.map CTxOut.value).sum ∧
      ∀ entry ∈ createdCoins txid coin fSkipZeroValue outs n, 0 ≤ coinValue entry.2 := by
  induction outs generalizing n with
  | nil => simp [createdCoins]
  | cons out rest ih =>
    obtain ⟨hsum, hall⟩ := ih (n + 1) fun other hother => hnonneg other (.tail _ hother)
    have hout := hnonneg out (.head _)
    have hvalue : coinValue (coin out) = out.value := by rw [coinValue, hcoin]
    rw [createdCoins]
    split_ifs
    · refine ⟨?_, hall⟩
      rw [map_cons, sum_cons]
      linarith
    · refine ⟨?_, ?_⟩
      · rw [map_cons, map_cons, sum_cons, sum_cons, hvalue]
        linarith
      · intro entry hentry
        rcases mem_cons.mp hentry with rfl | hrest
        · rw [hvalue]
          exact hout
        · exact hall entry hrest

/-- A transaction takes out of the coins what it spends and adds at most what it pays. -/
theorem CCoinsView.Applied.totalValue_le {hash256 : List UInt8 → Uint256} {nHeight : ℕ}
    {fSkipZeroValue : Bool} {view' : CCoinsView} {valueOut : ℤ}
    (h : Applied hash256 nHeight fSkipZeroValue tx view view')
    (hnonneg : Nonneg coinValue view.coins) (hvalue : tx.getValueOut = some valueOut) :
    Nonneg coinValue view'.coins ∧ view'.totalValue ≤
      view.totalValue - (tx.spent.map (worth coinValue view.coins)).sum + valueOut := by
  have hrange : ∀ out ∈ tx.vout, 0 ≤ out.value := fun out hout =>
    ((moneyRange_iff _).mp (moneyRange_of_getValueOut hvalue out hout)).1
  obtain ⟨hsum, hall⟩ := @sum_createdCoins_le (tx.getHash hash256) (tx.coinOf nHeight)
    fSkipZeroValue (fun _ => rfl) tx.vout 0 hrange
  obtain ⟨hkept, htotal⟩ := (hnonneg.eraseAll tx.spent).writeAll hall
  rw [total_eraseAll h.nodup] at htotal
  rw [h.view_eq]
  refine ⟨hkept, ?_⟩
  rw [getValueOut_eq hvalue]
  unfold totalValue
  unfold created
  linarith

/-! ## The sums of the loop -/

/-- The sum that `ConnectBlock` adds to `nValueIn` for a transaction. -/
def spentValue (view : CCoinsView) (tx : CTransaction) : ℤ :=
  if tx.isCoinBase then 0
  else (tx.vin.map fun input => (view.accessCoin input.prevout).out.value).sum

/-- For coins that are there, the sum is the worth of what is spent. -/
theorem CCoinsView.spentValue_eq
    (hpresent : ∀ outpoint ∈ tx.spent, (view.coins outpoint).isSome = true) :
    spentValue view tx = (tx.spent.map (worth coinValue view.coins)).sum := by
  unfold spentValue
  unfold spent at hpresent ⊢
  split_ifs at hpresent ⊢ with hcoinbase
  · rfl
  · rw [map_map]
    congr 1
    refine map_congr_left fun input hinput => ?_
    obtain ⟨coin, hcoin⟩ := Option.isSome_iff_exists.mp
      (hpresent input.prevout (mem_map_of_mem hinput))
    simp [accessCoin, worth, coinValue, hcoin]

theorem addValueOut_sums {st : TxLoop} (h : (addValueOut tx st).result = .ok ()) :
    ∃ value, tx.getValueOut = some value ∧
      (addValueOut tx st).state = { st with nValueOut := st.nValueOut + value } := by
  obtain ⟨value, hvalue⟩ := addValueOut_of_ok h
  refine ⟨value, hvalue, ?_⟩
  unfold addValueOut
  rw [hvalue]
  rfl

def TxLoop.sums (st : TxLoop) : ℤ × ℤ × ℤ := (st.nValueOut, st.nValueIn, st.nFees)

/-- What a transaction adds to the sums.  A coinbase and a coinstake leave no fee. -/
structure AddsSums (env : Env) (pindex : CBlockIndex) (block : CBlock) (tx : CTransaction)
    (st : TxLoop) (sums : ℤ × ℤ × ℤ) (value : ℤ) : Prop where
  getValueOut : tx.getValueOut = some value
  out : sums.1 = st.nValueOut + value
  spent : sums.2.1 = st.nValueIn + spentValue st.view tx
  fee : if tx.isCoinBase || tx.isCoinStake then sums.2.2 = st.nFees
    else checkTxInputs env st.view tx pindex.nHeight (txTime tx block) = .ok (sums.2.2 - st.nFees)

theorem connectInputs_sums {st : TxLoop}
    (h : (connectInputs env pindex ancestors block tx st).result = .ok ()) :
    ∃ value, AddsSums env pindex block tx st
      (connectInputs env pindex ancestors block tx st).state.sums value := by
  unfold connectInputs at h ⊢
  by_cases hcoinbase : tx.isCoinBase = true
  · rw [if_pos hcoinbase] at h ⊢
    obtain ⟨value, hvalue, hstate⟩ := addValueOut_sums h
    rw [hstate]
    refine ⟨value, hvalue, rfl, ?_, ?_⟩
    · rw [spentValue, if_pos hcoinbase]
      exact (add_zero _).symm
    · rw [hcoinbase]
      rfl
  · rw [if_neg hcoinbase] at h ⊢
    cases hinputs : checkTxInputs env st.view tx pindex.nHeight (txTime tx block) with
    | error failure => rw [hinputs] at h; exact absurd h (by simp)
    | ok txfee =>
      rw [hinputs] at h
      dsimp only at h ⊢
      rw [connectClaims_eq] at h ⊢
      obtain ⟨⟨⟩, hclaims, hamounts⟩ := andThen_eq_ok_iff.mp h
      rw [andThen_of_ok hclaims]
      unfold connectAmounts at hamounts ⊢
      obtain ⟨⟨⟩, hout, -⟩ := andThen_eq_ok_iff.mp hamounts
      rw [andThen_of_ok hout]
      obtain ⟨value, hvalue, hstate⟩ := addValueOut_sums hout
      rw [hstate]
      have hspent : st.nValueIn +
          (tx.vin.map fun input => (st.view.accessCoin input.prevout).out.value).sum =
          st.nValueIn + spentValue st.view tx := by rw [spentValue, if_neg hcoinbase]
      refine ⟨value, ?_⟩
      dsimp only
      split_ifs with hstake
      · exact ⟨hvalue, rfl, hspent, by simp [hstake, sums]⟩
      · split <;> exact ⟨hvalue, rfl, hspent, by simp [hstake, sums]⟩
      · exact ⟨hvalue, rfl, hspent, by simp [hcoinbase, hstake, sums, hinputs]⟩
      · split <;> exact ⟨hvalue, rfl, hspent, by simp [hcoinbase, hstake, sums, hinputs]⟩

theorem connectScripts_sums (st : TxLoop) :
    (connectScripts env ctx ancestors tx st).state.sums = st.sums := by
  unfold connectScripts
  dsimp only
  split
  · rfl
  · split
    · rfl
    · split
      · rfl
      · split <;> rfl

theorem connectCoins_sums (st : TxLoop) : (connectCoins env pindex tx st).state.sums = st.sums := by
  unfold connectCoins
  split <;> rfl

/-- What a transaction that passes adds to the sums. -/
theorem connectTx_sums {st : TxLoop}
    (h : (connectTx env ctx pindex ancestors block tx st).result = .ok ()) :
    ∃ value, AddsSums env pindex block tx st
      (connectTx env ctx pindex ancestors block tx st).state.sums value := by
  unfold connectTx at h ⊢
  obtain ⟨⟨⟩, hinputs, hrest⟩ := andThen_eq_ok_iff.mp h
  obtain ⟨⟨⟩, hscripts, -⟩ := andThen_eq_ok_iff.mp hrest
  rw [andThen_of_ok hinputs, andThen_of_ok hscripts, connectCoins_sums,
    connectScripts_sums]
  exact connectInputs_sums hinputs

/-! ## The block -/

/-- The transaction loop: the coins grow by at most what the block pays out less what it
spends. -/
theorem totalValue_connectLoop {st : ConnectState} (hnonneg : Nonneg coinValue st.view.coins)
    (hok : (connectLoop env ctx ancestors st).result = .ok ()) :
    Nonneg coinValue (connectLoop env ctx ancestors st).state.view.coins ∧
      (connectLoop env ctx ancestors st).state.view.totalValue ≤ st.view.totalValue +
        (connectLoop env ctx ancestors st).state.nValueOut -
        (connectLoop env ctx ancestors st).state.nValueIn := by
  refine (connectTx_forall (P := fun loop => Nonneg coinValue loop.view.coins ∧
    loop.view.totalValue ≤ st.view.totalValue + loop.nValueOut - loop.nValueIn)
    (Q := fun _ _ => True) ?_ ⟨hnonneg, ?_⟩ hok).1
  · rintro tx - loop ⟨hloop, htotal⟩ hstep
    obtain ⟨value, hvalue, hout, hin, -⟩ := connectTx_sums hstep
    dsimp only [sums] at hout hin
    have happlied := applied_of_updateCoins (connectTx_of_ok hstep).1
    obtain ⟨hnext, hle⟩ := happlied.totalValue_le hloop hvalue
    rw [← spentValue_eq happlied.present] at hle
    refine ⟨⟨hnext, ?_⟩, trivial, fun _ _ => trivial⟩
    rw [hout, hin]
    linarith
  · simp [loopInit]

/-- The supply that a block builds on. -/
def parentSupply (ancestors : IndexChain) : ℤ :=
  (ancestors.head?.map CBlockIndex.nMoneySupply).getD 0

variable {st final : ConnectState}

theorem Finished.nMoneySupply_eq (h : Finished env ctx ancestors st final) :
    final.pindex.nMoneySupply = parentSupply ancestors +
      (connectLoop env ctx ancestors st).state.nValueOut -
      (connectLoop env ctx ancestors st).state.nValueIn := by
  obtain ⟨nClaims, nStatus, hentry⟩ := h.pindex_eq
  rw [hentry]
  rfl

/-- A block after the first one pays out at most what it spends. -/
theorem Finished.nMoneySupply_le (h : Finished env ctx ancestors st final)
    (hlater : st.block.getHash env.host.hash256 ≠ env.params.hashGenesisBlock) :
    final.pindex.nMoneySupply ≤ parentSupply ancestors := by
  have htotals := h.totals
  rw [h.nMoneySupply_eq]
  have hmint : ¬ (connectLoop env ctx ancestors st).state.nFees <
      connectMint (connectLoop env ctx ancestors st).state := by
    intro hmore
    unfold checkConnectTotals at htotals
    rw [if_pos (by simp [hlater, hmore])] at htotals
    exact absurd htotals (by simp [blockConsensus])
  unfold connectMint at hmint
  linarith

/-! ## Chains from genesis -/

/-- The chains that `ConnectBlock` builds from the genesis block on, each with the coins
after its last block.  The index finds an entry by its hash, so the hash of a new block
is not the one of an ancestor. -/
inductive FromGenesis (env : Env) (kernel : Kernel) (genesis : CBlock) :
    IndexChain → CCoinsView → Prop
  | genesis {ctx : Circumstances} {st : ConnectState} (hblock : st.block = genesis)
      (hview : st.view = ⟨fun _ => none, 0⟩)
      (hok : (connectBlock env kernel ctx [] false st).result = .ok ()) :
      FromGenesis env kernel genesis
        [(connectBlock env kernel ctx [] false st).state.pindex]
        (connectBlock env kernel ctx [] false st).state.view
  | connect {ancestors : IndexChain} {view : CCoinsView} {ctx : Circumstances}
      {st : ConnectState} (hchain : FromGenesis env kernel genesis ancestors view)
      (hview : st.view = view) (hnew : st.pindex.hashBlock ∉ ancestors.map CBlockIndex.hashBlock)
      (hok : (connectBlock env kernel ctx ancestors false st).result = .ok ()) :
      FromGenesis env kernel genesis
        ((connectBlock env kernel ctx ancestors false st).state.pindex :: ancestors)
        (connectBlock env kernel ctx ancestors false st).state.view

/-- What the parameters of every network assert about their genesis block. -/
structure NetworkGenesis (env : Env) (genesis : CBlock) : Prop where
  getHash : genesis.getHash env.host.hash256 = env.params.hashGenesisBlock
  coinbase : ∃ tx, genesis.vtx = [tx] ∧ tx.isCoinBase = true ∧
    tx.getValueOut = some env.params.genesisValue

/-- The accounts of a chain and its coins. -/
structure Accounts (env : Env) (chain : IndexChain) (view : CCoinsView) : Prop where
  nonneg : Nonneg coinValue view.coins
  total_le : view.totalValue ≤ parentSupply chain
  decreasing : chain.IsChain fun child parent => child.nMoneySupply ≤ parent.nMoneySupply
  range : ∀ pindex ∈ chain, 0 ≤ pindex.nMoneySupply ∧ pindex.nMoneySupply ≤ env.params.genesisValue
  first : chain.getLast?.map CBlockIndex.nMoneySupply = some env.params.genesisValue
  genesis_mem : env.params.hashGenesisBlock ∈ chain.map CBlockIndex.hashBlock

/-- The coins and the supply after a connected block. -/
theorem connectBlock_supply (hnonneg : Nonneg coinValue st.view.coins)
    (hok : (connectBlock env kernel ctx ancestors false st).result = .ok ())
    (hfinal : (connectBlock env kernel ctx ancestors false st).state = final) :
    Nonneg coinValue final.view.coins ∧
      final.view.totalValue + parentSupply ancestors ≤
        st.view.totalValue + final.pindex.nMoneySupply ∧
      final.pindex.hashBlock = st.block.getHash env.host.hash256 ∧
      (st.block.getHash env.host.hash256 ≠ env.params.hashGenesisBlock →
        final.pindex.nMoneySupply ≤ parentSupply ancestors) := by
  subst hfinal
  obtain ⟨hprologue, -, hfinished⟩ := connectBlock_of_ok hok
  have hcoins := @view_loopStart env kernel ancestors st
  obtain ⟨hkept, htotal⟩ := totalValue_connectLoop (by rwa [hcoins]) hfinished.loop
  refine ⟨?_, ?_, ?_, fun hlater => ?_⟩
  · rw [hfinished.view_eq]
    exact hkept
  · rw [hfinished.view_eq, hfinished.nMoneySupply_eq]
    unfold totalValue at htotal ⊢
    rw [hcoins] at htotal
    linarith
  · obtain ⟨nClaims, nStatus, hentry⟩ := hfinished.pindex_eq
    have hhash : (loopStart env kernel ancestors false st).pindex.hashBlock = st.pindex.hashBlock :=
      CBlockIndex.hashBlock_of_unstaked_eq (unstaked_loopStart st)
    rw [hentry, ← hashBlock_of_prologue hprologue]
    exact hhash
  · refine hfinished.nMoneySupply_le ?_
    rwa [getHash_loopStart]

/-- The supply after the genesis block is the value of its only transaction. -/
theorem nMoneySupply_genesis (hgenesis : NetworkGenesis env genesis) (hblock : st.block = genesis)
    (hok : (connectBlock env kernel ctx [] false st).result = .ok ()) :
    (connectBlock env kernel ctx [] false st).state.pindex.nMoneySupply =
      env.params.genesisValue := by
  obtain ⟨-, -, hfinished⟩ := connectBlock_of_ok hok
  obtain ⟨tx, hvtx, hcoinbase, hvalue⟩ := hgenesis.coinbase
  have htxs : (loopStart env kernel [] false st).block.vtx = [tx] := by
    rw [CBlock.vtx_eq_of_content_eq (content_loopStart st), hblock, hvtx]
  have hloop := hfinished.loop
  rw [hfinished.nMoneySupply_eq]
  unfold connectLoop at hloop ⊢
  rw [htxs] at hloop ⊢
  have hstep := (forEach_cons_eq_ok_iff.mp hloop).1
  rw [state_forEach_cons_of_ok hstep, forEach_nil, state_pass]
  obtain ⟨value, hvalue', hout, hin, -⟩ := connectTx_sums hstep
  dsimp only [sums] at hout hin
  obtain rfl : value = env.params.genesisValue := Option.some.inj (hvalue'.symm.trans hvalue)
  rw [hout, hin, spentValue, if_pos hcoinbase]
  simp [parentSupply, loopInit]

theorem accounts_genesis (hgenesis : NetworkGenesis env genesis) (hblock : st.block = genesis)
    (hview : st.view = ⟨fun _ => none, 0⟩)
    (hok : (connectBlock env kernel ctx [] false st).result = .ok ())
    (hfinal : (connectBlock env kernel ctx [] false st).state = final) :
    Accounts env [final.pindex] final.view := by
  have hempty : Nonneg coinValue st.view.coins := by
    rw [hview]
    intro outpoint coin hcoin
    cases hcoin
  have hzero : st.view.totalValue = 0 := by
    rw [hview, totalValue]
    exact total_empty
  obtain ⟨hkept, htotal, hhash, -⟩ := connectBlock_supply hempty hok hfinal
  have hsupply := nMoneySupply_genesis hgenesis hblock hok
  rw [hfinal] at hsupply
  have hpos := hkept.total_nonneg
  rw [hzero, hsupply] at htotal
  simp only [parentSupply, head?_nil, Option.map_none, Option.getD_none] at htotal
  unfold totalValue at htotal
  constructor
  · exact hkept
  · simp only [parentSupply, head?_cons, Option.map_some, Option.getD_some, hsupply]
    unfold totalValue
    linarith
  · simp
  · intro pindex hmem
    obtain rfl := mem_singleton.mp hmem
    rw [hsupply]
    constructor <;> linarith
  · simp [hsupply]
  · rw [hblock, hgenesis.getHash] at hhash
    simp [hhash]

theorem Accounts.connect {view : CCoinsView} (h : Accounts env ancestors view)
    (hview : st.view = view) (hnew : st.pindex.hashBlock ∉ ancestors.map CBlockIndex.hashBlock)
    (hok : (connectBlock env kernel ctx ancestors false st).result = .ok ())
    (hfinal : (connectBlock env kernel ctx ancestors false st).state = final) :
    Accounts env (final.pindex :: ancestors) final.view := by
  subst hview
  obtain ⟨hkept, htotal, hhash, hsupply⟩ := connectBlock_supply h.nonneg hok hfinal
  have hlater : st.block.getHash env.host.hash256 ≠ env.params.hashGenesisBlock := by
    intro heq
    rw [hashBlock_of_prologue (connectBlock_of_ok hok).1, heq] at hnew
    exact hnew h.genesis_mem
  have hle := hsupply hlater
  have hpos := hkept.total_nonneg
  have hcoins := h.total_le
  have hne : ancestors ≠ [] := by
    rintro rfl
    exact absurd h.genesis_mem (by simp)
  obtain ⟨parent, rest, rfl⟩ := exists_cons_of_ne_nil hne
  have hparent := h.range parent (.head _)
  simp only [parentSupply, head?_cons, Option.map_some, Option.getD_some] at hle htotal hcoins
  unfold totalValue at htotal hcoins
  constructor
  · exact hkept
  · simp only [parentSupply, head?_cons, Option.map_some, Option.getD_some]
    unfold totalValue
    linarith
  · exact isChain_cons_cons.mpr ⟨hle, h.decreasing⟩
  · intro pindex hmem
    rcases mem_cons.mp hmem with rfl | hrest
    · constructor <;> linarith
    · exact h.range pindex hrest
  · rw [getLast?_cons_cons]
    exact h.first
  · exact .tail _ h.genesis_mem

theorem FromGenesis.accounts (hgenesis : NetworkGenesis env genesis) {chain : IndexChain}
    (hchain : FromGenesis env kernel genesis chain view) : Accounts env chain view := by
  induction hchain with
  | genesis hblock hview hok => exact accounts_genesis hgenesis hblock hview hok rfl
  | connect _ hview hnew hok ih => exact ih.connect hview hnew hok rfl

/-- There is no inflation: the supply starts as the genesis value, never grows and stays
in range, and the coins are worth at most the supply. -/
theorem no_inflation {genesis : CBlock} (hgenesis : NetworkGenesis env genesis)
    {chain : IndexChain} {view : CCoinsView} (hchain : FromGenesis env kernel genesis chain view) :
    chain.getLast?.map CBlockIndex.nMoneySupply = some env.params.genesisValue ∧
      chain.IsChain (fun child parent => child.nMoneySupply ≤ parent.nMoneySupply) ∧
      (∀ pindex ∈ chain, 0 ≤ pindex.nMoneySupply ∧
        pindex.nMoneySupply ≤ env.params.genesisValue) ∧
      ∃ tip, chain.head? = some tip ∧ view.totalValue ≤ tip.nMoneySupply := by
  have haccounts := hchain.accounts hgenesis
  refine ⟨haccounts.first, haccounts.decreasing, haccounts.range, ?_⟩
  have hcoins := haccounts.total_le
  cases hchain with
  | genesis hblock hview hok => exact ⟨_, rfl, hcoins⟩
  | connect _ hview hnew hok => exact ⟨_, rfl, hcoins⟩

namespace SmallNet

theorem fromGenesis_first {env : Env} (hok : passed (connect env [] blank genesisBlock).result) :
    FromGenesis env stakeKernel genesisBlock (reach env [genesisBlock]).2
      (reach env [genesisBlock]).1.view := by
  have hview : (onTop blank ([] : IndexChain).length genesisBlock).view = ⟨fun _ => none, 0⟩ := rfl
  have hpass := passed_iff.mp hok
  simp only [reach]
  unfold connect at hpass ⊢
  exact .genesis (block_onTop _ _ _) hview hpass

theorem fromGenesis_cons {env : Env} {block : CBlock} {rest : List CBlock}
    (hchain : FromGenesis env stakeKernel genesisBlock (reach env rest).2 (reach env rest).1.view)
    (hnew : block.getHash hash256 ∉ (reach env rest).2.map CBlockIndex.hashBlock)
    (hok : passed (connect env (reach env rest).2 (reach env rest).1 block).result) :
    FromGenesis env stakeKernel genesisBlock (reach env (block :: rest)).2
      (reach env (block :: rest)).1.view := by
  exact .connect hchain rfl hnew (passed_iff.mp hok)

end SmallNet

open SmallNet in
theorem no_inflation_snapshotBlock : FromGenesis wholeGenesis stakeKernel genesisBlock
        (reach wholeGenesis [snapshotBlock, genesisBlock]).2
        (reach wholeGenesis [snapshotBlock, genesisBlock]).1.view ∧
      ∃ tip, (reach wholeGenesis [snapshotBlock, genesisBlock]).2.head? = some tip ∧
        (reach wholeGenesis [snapshotBlock, genesisBlock]).1.view.totalValue ≤
          tip.nMoneySupply := by
  have hgenesis : NetworkGenesis wholeGenesis genesisBlock :=
    ⟨by decide +kernel, genesisTx, rfl, by decide +kernel, by decide +kernel⟩
  have hfirst : FromGenesis wholeGenesis stakeKernel genesisBlock
      (reach wholeGenesis [genesisBlock]).2 (reach wholeGenesis [genesisBlock]).1.view :=
    fromGenesis_first (by decide +kernel)
  have hchain : FromGenesis wholeGenesis stakeKernel genesisBlock
      (reach wholeGenesis [snapshotBlock, genesisBlock]).2
      (reach wholeGenesis [snapshotBlock, genesisBlock]).1.view :=
    fromGenesis_cons hfirst (by decide +kernel) (by decide +kernel)
  exact ⟨hchain, (no_inflation hgenesis hchain).2.2.2⟩

end Patchcoin
