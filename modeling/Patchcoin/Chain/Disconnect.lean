import Patchcoin.Chain.Undo
import Patchcoin.Chain.Recorded

/-!
# Taking a block back

Disconnecting the transactions of a block puts the coins from before the block on
every outpoint that the block touches and leaves the other outpoints alone,
whatever view it is applied to (`disconnectTxs_someIff`).  On the view that
the block was connected to this gives the view before it.  On a view that was
only partly written it still puts right what the block touched, which is what the
recovery after a crash relies on.

There is one obstacle.  The coins of the genesis transaction have height zero, so
their undo records are taken for records without metadata.  If no output of the
genesis transaction is unspent at the moment one of them is restored, the block
cannot be disconnected.
-/

namespace Patchcoin

open Ledger List

/-! ## Looking for another output -/

/-- Some output of the transaction is unspent, at a position that `AccessByTxid` looks at. -/
def HasOutput (coins : COutPoint → Option Coin) (txid : Uint256) : Prop :=
  ∃ n < MAX_OUTPUTS_PER_BLOCK, coins ⟨txid, UInt32.ofNat n⟩ ≠ none

namespace CCoinsView

variable {view : CCoinsView} {txid : Uint256} {coin : Coin}
variable {fuel : ℕ}

theorem accessFrom_eq_none_iff {n : ℕ} : view.accessFrom txid fuel n = none ↔
    ∀ m, n ≤ m → m < n + fuel → view.coins ⟨txid, UInt32.ofNat m⟩ = none := by
  induction fuel generalizing n with
  | zero =>
    refine ⟨fun _ m hle hlt => absurd hlt (by omega), fun _ => rfl⟩
  | succ fuel ih =>
    rw [accessFrom]
    cases hfirst : view.coins ⟨txid, UInt32.ofNat n⟩ with
    | some coin =>
      refine ⟨fun h => absurd h (by simp), fun h => ?_⟩
      have hnone := h n le_rfl (by omega)
      rw [hfirst] at hnone
      exact hnone
    | none =>
      rw [ih]
      refine ⟨fun h m hle hlt => ?_, fun h m hle hlt => h m (by omega) (by omega)⟩
      by_cases heq : m = n
      · rw [heq, hfirst]
      · exact h m (by omega) (by omega)

theorem exists_of_accessFrom {n : ℕ} (h : view.accessFrom txid fuel n = some coin) :
    ∃ m, view.coins ⟨txid, UInt32.ofNat m⟩ = some coin := by
  induction fuel generalizing n with
  | zero => exact absurd h (by simp [accessFrom])
  | succ fuel ih =>
    rw [accessFrom] at h
    cases hfirst : view.coins ⟨txid, UInt32.ofNat n⟩ with
    | some first =>
      rw [hfirst] at h
      exact ⟨n, hfirst.trans h⟩
    | none =>
      rw [hfirst] at h
      exact ih h

theorem accessByTxid_eq_none_iff : view.accessByTxid txid = none ↔ ¬ HasOutput view.coins txid := by
  unfold accessByTxid HasOutput
  rw [accessFrom_eq_none_iff]
  push Not
  constructor
  · intro h n hn
    exact h n (Nat.zero_le n) (by omega)
  · intro h m _ hm
    exact h m (by omega)

end CCoinsView

/-! ## Regular coins -/

/-- The coins of a chain whose genesis transaction is `genesis`: they can be stored, the
coins of height zero are outputs of that transaction, and its outputs have its
metadata. -/
structure Regular (hash256 : List UInt8 → Uint256) (genesis : CTransaction)
    (coins : COutPoint → Option Coin) : Prop where
  storable : ∀ outpoint coin, coins outpoint = some coin → coin.Storable
  hash_of_height : ∀ outpoint coin, coins outpoint = some coin → coin.nHeight = 0 →
    outpoint.hash = genesis.getHash hash256
  coin_of_hash : ∀ outpoint coin, coins outpoint = some coin →
    outpoint.hash = genesis.getHash hash256 → coin = genesis.coinOf 0 coin.out

section Regular

variable {hash256 : List UInt8 → Uint256} {genesis : CTransaction}
  {coins old : COutPoint → Option Coin}

theorem Regular.overlay (hold : Regular hash256 genesis old) (h : Regular hash256 genesis coins)
    (keys : List COutPoint) : Regular hash256 genesis (overlay keys old coins) := by
  have hcases (outpoint : COutPoint) (coin : Coin)
      (hcoin : Ledger.overlay keys old coins outpoint = some coin) :
      old outpoint = some coin ∨ coins outpoint = some coin := by
    by_cases hmem : outpoint ∈ keys
    · exact .inl ((overlay_of_mem hmem).symm.trans hcoin)
    · exact .inr ((overlay_of_notMem hmem).symm.trans hcoin)
  refine ⟨fun outpoint coin hcoin => ?_, fun outpoint coin hcoin => ?_,
    fun outpoint coin hcoin => ?_⟩
  · exact (hcases outpoint coin hcoin).elim (hold.storable outpoint coin) (h.storable outpoint coin)
  · exact (hcases outpoint coin hcoin).elim (hold.hash_of_height outpoint coin)
      (h.hash_of_height outpoint coin)
  · exact (hcases outpoint coin hcoin).elim (hold.coin_of_hash outpoint coin)
      (h.coin_of_hash outpoint coin)

theorem regular_empty : Regular hash256 genesis fun _ => none :=
  ⟨fun _ _ h => absurd h (by simp), fun _ _ h => absurd h (by simp),
    fun _ _ h => absurd h (by simp)⟩

theorem Regular.eraseAll (h : Regular hash256 genesis coins) (keys : List COutPoint) :
    Regular hash256 genesis (eraseAll coins keys) := by
  rw [eraseAll_eq_overlay]
  exact regular_empty.overlay h keys

/-- A transaction of a later block keeps the coins regular. -/
theorem Regular.applied {nHeight : ℕ} {fSkipZeroValue : Bool} {tx : CTransaction}
    {view view' : CCoinsView} (h : Regular hash256 genesis view.coins)
    (happlied : CCoinsView.Applied hash256 nHeight fSkipZeroValue tx view view')
    (hpos : 0 < nHeight) (hheight : nHeight < 2 ^ 30)
    (hvalue : ∀ out ∈ tx.vout, moneyRange out.value = true)
    (hother : tx.getHash hash256 ≠ genesis.getHash hash256) :
    Regular hash256 genesis view'.coins := by
  have herased := h.eraseAll tx.spent
  rw [happlied.view_eq]
  -- A coin is one that was there or one that is created.
  have hcases (outpoint : COutPoint) (coin : Coin)
      (hcoin : writeAll (Ledger.eraseAll view.coins tx.spent)
        (tx.created hash256 nHeight fSkipZeroValue) outpoint = some coin) :
      (outpoint.hash = tx.getHash hash256 ∧ coin.nHeight = nHeight ∧ coin.Storable) ∨
        Ledger.eraseAll view.coins tx.spent outpoint = some coin := by
    refine (mem_or_of_writeAll hcoin).imp_left fun hmem => ?_
    obtain ⟨hhash, out, hout, hkept, rfl⟩ := mem_createdCoins hmem
    rw [skipsOutput, Bool.or_eq_false_iff] at hkept
    exact ⟨hhash, rfl, hvalue out hout, hkept.1, hheight⟩
  refine ⟨fun outpoint coin hcoin => ?_, fun outpoint coin hcoin hzero => ?_,
    fun outpoint coin hcoin hgenesis => ?_⟩
  · exact (hcases outpoint coin hcoin).elim (fun hnew => hnew.2.2)
      (herased.storable outpoint coin)
  · rcases hcases outpoint coin hcoin with ⟨-, hnew, -⟩ | hthere
    · omega
    · exact herased.hash_of_height outpoint coin hthere hzero
  · rcases hcases outpoint coin hcoin with ⟨hhash, -, -⟩ | hthere
    · exact absurd (hhash.symm.trans hgenesis) hother
    · exact herased.coin_of_hash outpoint coin hthere hgenesis

theorem HasOutput.overlay {txid : Uint256} (h : HasOutput coins txid) {keys : List COutPoint}
    (hkeys : ∀ key ∈ keys, key.hash = txid → old key ≠ none) :
    HasOutput (overlay keys old coins) txid := by
  obtain ⟨n, hn, hsome⟩ := h
  refine ⟨n, hn, ?_⟩
  by_cases hmem : (⟨txid, UInt32.ofNat n⟩ : COutPoint) ∈ keys
  · rw [overlay_of_mem hmem]
    exact hkeys _ hmem rfl
  · rw [overlay_of_notMem hmem]
    exact hsome

/-- Putting coins back brings no output of a transaction that had none. -/
theorem hasOutput_overlay_iff {txid : Uint256} {keys : List COutPoint}
    (hkeys : ∀ key ∈ keys, key.hash = txid → old key ≠ none)
    (h : (∃ key ∈ keys, key.hash = txid) → HasOutput coins txid) :
    HasOutput (overlay keys old coins) txid ↔ HasOutput coins txid := by
  refine ⟨?_, fun hcoins => hcoins.overlay hkeys⟩
  by_cases hex : ∃ key ∈ keys, key.hash = txid
  · exact fun _ => h hex
  · rintro ⟨n, hn, hsome⟩
    refine ⟨n, hn, ?_⟩
    rwa [overlay_of_notMem fun hkey => hex ⟨_, hkey, rfl⟩] at hsome

end Regular

/-! ## The outputs of a transaction -/

namespace CCoinsView

section Outputs

variable {view : CCoinsView} {hash : Uint256} {same : CTxOut → Coin → Bool} {fSkipZeroValue : Bool}
variable {outs : List CTxOut}

theorem spendCoin_getD (prevout : COutPoint) : (view.spendCoin prevout).getD view =
    { view with coins := write view.coins prevout none } := by
  cases hspend : view.spendCoin prevout with
  | some spent => exact (spendCoin_eq_some_iff.mp hspend).2
  | none =>
    have hnone : view.coins prevout = none := by
      unfold spendCoin at hspend
      split_ifs at hspend with hnone
      exact Option.isNone_iff_eq_none.mp hnone
    have hsame : write view.coins prevout none = view.coins := by
      funext other
      by_cases heq : other = prevout
      · rw [heq, write_self, hnone]
      · exact write_of_ne heq
    rw [hsame]
    rfl

/-- The outputs that are spent are the ones that were created. -/
theorem spendOutputs_fst (coin : CTxOut → Coin) {o : ℕ} {fClean : Bool} :
    (spendOutputs hash same fSkipZeroValue outs o (view, fClean)).1 = { view with
      coins := eraseAll view.coins
        ((createdCoins hash coin fSkipZeroValue outs o).map Prod.fst) } := by
  induction outs generalizing view o fClean with
  | nil => simp [spendOutputs, createdCoins]
  | cons out rest ih =>
    rw [spendOutputs, createdCoins]
    split_ifs with hskip
    · exact ih
    · rw [ih, spendCoin_getD, map_cons, eraseAll_cons]

/-- Spending outputs that are all there, as they were created, is clean. -/
theorem spendOutputs_snd {coin : CTxOut → Coin} {o : ℕ} {fClean : Bool}
    (hnodup : ((createdCoins hash coin fSkipZeroValue outs o).map Prod.fst).Nodup)
    (hcoin : ∀ out, same out (coin out) = true)
    (hpresent : ∀ entry ∈ createdCoins hash coin fSkipZeroValue outs o,
      view.coins entry.1 = some entry.2) :
    (spendOutputs hash same fSkipZeroValue outs o (view, fClean)).2 = fClean := by
  induction outs generalizing view o fClean with
  | nil => rfl
  | cons out rest ih =>
    rw [createdCoins] at hnodup hpresent
    rw [spendOutputs]
    split_ifs at hnodup hpresent ⊢ with hskip
    · exact ih hnodup hpresent
    · rw [map_cons, nodup_cons] at hnodup
      have hfirst : view.coins ⟨hash, UInt32.ofNat o⟩ = some (coin out) := hpresent _ (.head _)
      rw [hfirst, Option.any_some, hcoin, Bool.and_true, spendCoin_getD]
      refine ih hnodup.2 fun entry hentry => ?_
      have hne : entry.1 ≠ ⟨hash, UInt32.ofNat o⟩ := by
        intro heq
        have hkey : entry.1 ∈ (createdCoins hash coin fSkipZeroValue rest (o + 1)).map Prod.fst :=
          mem_map_of_mem hentry
        rw [heq] at hkey
        exact hnodup.1 hkey
      dsimp only
      rw [write_of_ne hne]
      exact hpresent entry (.tail _ hentry)

end Outputs

/-! ## The inputs of a transaction -/

section Inputs

variable {hash256 : List UInt8 → Uint256} {genesis : CTransaction}
  {old : COutPoint → Option Coin} {view : CCoinsView} {outpoint : COutPoint} {coin : Coin}

/-- A record stands for the coin it was made from, if an output of the genesis transaction
is there for those that need one. -/
theorem undoCoin_of_hasOutput (hold : Regular hash256 genesis old)
    (hview : Regular hash256 genesis view.coins) (hcoin : old outpoint = some coin)
    (hother : outpoint.hash = genesis.getHash hash256 →
      HasOutput view.coins (genesis.getHash hash256)) :
    view.undoCoin coin outpoint = some coin := by
  unfold undoCoin
  split_ifs with hzero
  · have hhash := hold.hash_of_height outpoint coin hcoin hzero
    cases hfound : view.accessByTxid outpoint.hash with
    | none =>
      rw [hhash] at hfound
      exact absurd (hother hhash) (accessByTxid_eq_none_iff.mp hfound)
    | some alternate =>
      obtain ⟨m, hm⟩ := exists_of_accessFrom hfound
      have halternate := hview.coin_of_hash _ _ hm hhash
      have hself := hold.coin_of_hash outpoint coin hcoin hhash
      rw [Option.map_some, halternate, hself]
      rfl
  · rfl

theorem undoCoin_eq_none (hold : Regular hash256 genesis old) (hcoin : old outpoint = some coin)
    (hhash : outpoint.hash = genesis.getHash hash256)
    (hnone : ¬ HasOutput view.coins (genesis.getHash hash256)) :
    view.undoCoin coin outpoint = none := by
  have hzero : coin.nHeight = 0 := by
    rw [hold.coin_of_hash outpoint coin hcoin hhash]
    rfl
  rw [undoCoin, if_pos hzero, hhash, accessByTxid_eq_none_iff.mpr hnone, Option.map_none]

/-- The outpoint of a restored coin is written, whether it was free or not. -/
theorem applyTxInUndo_of_undoCoin (hcoin : coin.Storable)
    (hundo : view.undoCoin coin outpoint = some coin) : view.applyTxInUndo coin outpoint =
      some ({ view with coins := write view.coins outpoint (some coin) },
        (view.coins outpoint).isNone) := by
  have hclash : (!(!(view.coins outpoint).isNone) && (view.coins outpoint).isSome) = false := by
    cases view.coins outpoint <;> rfl
  unfold applyTxInUndo
  rw [hundo]
  dsimp only
  rw [addCoin, if_neg (by rw [hcoin.script]; decide), Bool.false_and, if_neg (by decide),
    hclash, if_neg (by decide)]
  rfl

variable {entries : List (COutPoint × Coin)} {fClean : Bool}

/-- The inputs are restored exactly if an output of the genesis transaction is there for
those that need one. -/
theorem restoreInputs_someIff (hold : Regular hash256 genesis old)
    (hview : Regular hash256 genesis view.coins)
    (hentries : ∀ entry ∈ entries, old entry.1 = some entry.2) : SomeIff
      ((∃ entry ∈ entries, entry.1.hash = genesis.getHash hash256) →
        HasOutput view.coins (genesis.getHash hash256))
      (restoreInputs entries (view, fClean)) fun done =>
        done.1 = { view with coins := overlay (entries.map Prod.fst) old view.coins } ∧
          ((entries.map Prod.fst).Nodup → (∀ entry ∈ entries, view.coins entry.1 = none) →
            done.2 = fClean) := by
  induction entries with
  | nil => exact .inl ⟨by simp, _, rfl, by simp, fun _ _ => rfl⟩
  | cons entry rest ih =>
    obtain ⟨outpoint, coin⟩ := entry
    have hcoin : old outpoint = some coin := hentries _ (.head _)
    have htail : ∀ other ∈ rest, old other.1 = some other.2 :=
      fun other hmem => hentries other (.tail _ hmem)
    rw [restoreInputs]
    rcases ih htail with ⟨hneed, ⟨_, clean⟩, hrest, rfl, hclean⟩ | ⟨hneed, hrest⟩
    · have hstill : HasOutput (overlay (rest.map Prod.fst) old view.coins)
          (genesis.getHash hash256) ↔ HasOutput view.coins (genesis.getHash hash256) := by
        refine hasOutput_overlay_iff ?_ ?_
        · intro key hkey _
          obtain ⟨other, hmem, rfl⟩ := mem_map.mp hkey
          rw [htail other hmem]
          exact Option.some_ne_none _
        · rintro ⟨key, hkey, hhash⟩
          obtain ⟨other, hmem, rfl⟩ := mem_map.mp hkey
          exact hneed ⟨other, hmem, hhash⟩
      rw [hrest]
      by_cases hthis : outpoint.hash = genesis.getHash hash256 →
          HasOutput view.coins (genesis.getHash hash256)
      · have hundo := @undoCoin_of_hasOutput hash256 genesis old
          { view with coins := overlay (rest.map Prod.fst) old view.coins } outpoint coin hold
          (hold.overlay hview _) hcoin fun hhash => hstill.mpr (hthis hhash)
        dsimp only
        rw [applyTxInUndo_of_undoCoin (hold.storable outpoint coin hcoin) hundo]
        refine .inl ⟨?_, _, rfl, ?_, ?_⟩
        · rintro ⟨entry, hmem, hhash⟩
          rcases mem_cons.mp hmem with rfl | hmem
          · exact hthis hhash
          · exact hneed ⟨entry, hmem, hhash⟩
        · rw [← hcoin, write_overlay, map_cons]
        · intro hnodup hfree
          rw [map_cons, nodup_cons] at hnodup
          dsimp only at hclean ⊢
          rw [hclean hnodup.2 fun other hmem => hfree other (.tail _ hmem),
            overlay_of_notMem hnodup.1, hfree _ (.head _)]
          simp
      · obtain ⟨hhash, hnone⟩ := Classical.not_imp.mp hthis
        have hundo := @undoCoin_eq_none hash256 genesis old
          { view with coins := overlay (rest.map Prod.fst) old view.coins } outpoint coin hold
          hcoin hhash (hstill.not.mpr hnone)
        right
        refine ⟨fun hall => hnone (hall ⟨_, .head _, hhash⟩), ?_⟩
        dsimp only
        rw [applyTxInUndo, hundo]
        rfl
    · right
      refine ⟨fun hall => hneed fun ⟨other, hmem, hhash⟩ => hall ⟨other, .tail _ hmem, hhash⟩, ?_⟩
      rw [hrest]

end Inputs

end CCoinsView

/-! ## A transaction -/

section Transactions

variable {env : Env} {pindex : CBlockIndex} {genesis tx : CTransaction} {txs : List CTransaction}
  {view view' other : CCoinsView} {fClean : Bool}
variable {next : CCoinsView} {key outpoint : COutPoint}

/-- The coins that a transaction of a block creates. -/
def createdIn (env : Env) (pindex : CBlockIndex) (tx : CTransaction) : List (COutPoint × Coin) :=
  tx.created env.host.hash256 pindex.nHeight (isProtocolV12 env.params pindex.nTime.toNat)

/-- The outpoints that a transaction of a block spends or creates. -/
def touched (env : Env) (pindex : CBlockIndex) (tx : CTransaction) : List COutPoint :=
  tx.spent ++ (createdIn env pindex tx).map Prod.fst

/-- The view after a transaction of a block. -/
def AppliedIn (env : Env) (pindex : CBlockIndex) (tx : CTransaction)
    (view view' : CCoinsView) : Prop :=
  CCoinsView.Applied env.host.hash256 pindex.nHeight
    (isProtocolV12 env.params pindex.nTime.toNat) tx view view'

theorem AppliedIn.coins_of_notMem (h : AppliedIn env pindex tx view view')
    (hmem : outpoint ∉ touched env pindex tx) : view'.coins outpoint = view.coins outpoint := by
  rw [touched, mem_append, not_or] at hmem
  rw [h.view_eq]
  exact (writeAll_of_notMem hmem.2).trans (eraseAll_of_notMem hmem.1)

theorem hash_of_mem_createdIn (h : key ∈ (createdIn env pindex tx).map Prod.fst) :
    key.hash = tx.getHash env.host.hash256 := by
  obtain ⟨entry, hentry, rfl⟩ := mem_map.mp h
  exact (mem_createdCoins hentry).1

/-- The outputs are gone, and nothing was wrong if they were all there. -/
theorem spendOutputs_eq (env : Env) (pindex : CBlockIndex) (tx : CTransaction)
    (other : CCoinsView) (fClean : Bool) :
    ∃ clean, CCoinsView.spendOutputs (tx.getHash env.host.hash256)
        (CCoinsView.sameOutput tx pindex.nHeight) (isProtocolV12 env.params pindex.nTime.toNat)
        tx.vout 0 (other, fClean) =
        ({ other with coins := eraseAll other.coins ((createdIn env pindex tx).map Prod.fst) },
          clean) ∧
      (((createdIn env pindex tx).map Prod.fst).Nodup →
        (∀ entry ∈ createdIn env pindex tx, other.coins entry.1 = some entry.2) →
        clean = fClean) := by
  refine ⟨_, Prod.ext (CCoinsView.spendOutputs_fst (tx.coinOf pindex.nHeight)) rfl, ?_⟩
  intro hnodup hpresent
  refine CCoinsView.spendOutputs_snd hnodup (fun out => ?_) hpresent
  simp [CCoinsView.sameOutput, CTransaction.coinOf]

theorem CTransaction.spent_of_not_coinBase (hcoinbase : tx.isCoinBase = false) :
    tx.spent = tx.vin.map CTxIn.prevout := by
  rw [CTransaction.spent, hcoinbase]
  rfl

/-- The undo records of a transaction, each with its outpoint. -/
def undoEntries (view : CCoinsView) (tx : CTransaction) : List (COutPoint × Coin) :=
  tx.vin.map fun input => (input.prevout, view.accessCoin input.prevout)

theorem keys_undoEntries (hcoinbase : tx.isCoinBase = false) :
    (undoEntries view tx).map Prod.fst = tx.spent := by
  rw [undoEntries, CTransaction.spent_of_not_coinBase hcoinbase, map_map]
  rfl

/-- The records hold the coins that the transaction spends. -/
theorem AppliedIn.undoEntries_eq (h : AppliedIn env pindex tx view view')
    (hcoinbase : tx.isCoinBase = false) :
    ∀ entry ∈ undoEntries view tx, view.coins entry.1 = some entry.2 := by
  intro entry hentry
  have hspent : entry.1 ∈ tx.spent := by
    rw [← keys_undoEntries hcoinbase]
    exact mem_map_of_mem hentry
  obtain ⟨coin, hcoin⟩ := Option.isSome_iff_exists.mp (h.present _ hspent)
  obtain ⟨input, hinput, rfl⟩ := mem_map.mp hentry
  rw [CCoinsView.accessCoin, hcoin, Option.getD_some]

/-- What `DisconnectBlock` does for a transaction other than the first: the outputs are
spent and the inputs restored. -/
theorem disconnectTx_eq (hcoinbase : tx.isCoinBase = false) (st : CCoinsView × Bool) :
    disconnectTx env pindex tx (some (txUndo tx view)) st =
      CCoinsView.restoreInputs (undoEntries view tx)
        (CCoinsView.spendOutputs (tx.getHash env.host.hash256)
          (CCoinsView.sameOutput tx pindex.nHeight) (isProtocolV12 env.params pindex.nTime.toNat)
          tx.vout 0 st) := by
  have hrecords : (txUndo tx view).vprevout =
      tx.vin.map fun input => view.accessCoin input.prevout := by
    rw [txUndo, hcoinbase]
    rfl
  unfold disconnectTx
  dsimp only
  rw [hrecords, length_map, if_neg (not_not.mpr rfl), zip_map']
  rfl

/-- Spending the outputs of another transaction leaves the genesis outputs alone. -/
theorem hasOutput_eraseAll_iff
    (htx : tx.getHash env.host.hash256 ≠ genesis.getHash env.host.hash256) :
    HasOutput (eraseAll other.coins ((createdIn env pindex tx).map Prod.fst))
        (genesis.getHash env.host.hash256) ↔
      HasOutput other.coins (genesis.getHash env.host.hash256) := by
  have hsame (n : ℕ) : eraseAll other.coins ((createdIn env pindex tx).map Prod.fst)
      ⟨genesis.getHash env.host.hash256, UInt32.ofNat n⟩ =
        other.coins ⟨genesis.getHash env.host.hash256, UInt32.ofNat n⟩ :=
    eraseAll_of_notMem fun hmem => htx (hash_of_mem_createdIn hmem).symm
  unfold HasOutput
  simp only [hsame]

/-- A transaction is taken back exactly if an unspent genesis output is there when it has
spent one. -/
theorem disconnectTx_someIff (h : AppliedIn env pindex tx view view')
    (hcoinbase : tx.isCoinBase = false)
    (htx : tx.getHash env.host.hash256 ≠ genesis.getHash env.host.hash256)
    (hview : Regular env.host.hash256 genesis view.coins)
    (hother : Regular env.host.hash256 genesis other.coins) : SomeIff
      ((∃ outpoint ∈ tx.spent, outpoint.hash = genesis.getHash env.host.hash256) →
        HasOutput other.coins (genesis.getHash env.host.hash256))
      (disconnectTx env pindex tx (some (txUndo tx view)) (other, fClean)) fun done =>
        done.1 = { other with coins := overlay (touched env pindex tx) view.coins other.coins } ∧
          (other.coins = view'.coins → done.2 = fClean) := by
  obtain ⟨hnodup, hfree⟩ := h.free hcoinbase
  obtain ⟨spentClean, hspent, hspentClean⟩ := spendOutputs_eq env pindex tx other fClean
  have hkeys := @keys_undoEntries tx view hcoinbase
  have hrestored := @CCoinsView.restoreInputs_someIff env.host.hash256 genesis view.coins
    { other with coins := eraseAll other.coins ((createdIn env pindex tx).map Prod.fst) }
    (undoEntries view tx) spentClean hview (hother.eraseAll _) (h.undoEntries_eq hcoinbase)
  rw [disconnectTx_eq hcoinbase, hspent]
  refine hrestored.of_iff ?_ ?_
  · rw [hasOutput_eraseAll_iff htx, ← hkeys]
    simp only [mem_map, exists_exists_and_eq_and]
  · rintro ⟨done, clean⟩ ⟨rfl, hclean⟩
    refine ⟨?_, fun hsame => ?_⟩
    · rw [hkeys, eraseAll_eq_overlay, overlay_overlay]
      · rfl
      · -- an outpoint that was created, and not spent before, was free
        intro key hkey hnot
        rw [← hfree key hkey, eraseAll_of_notMem hnot]
    · have hwritten : ∀ entry ∈ createdIn env pindex tx, other.coins entry.1 = some entry.2 := by
        intro entry hentry
        rw [hsame, h.view_eq]
        exact writeAll_of_mem hnodup hentry
      rw [← hspentClean hnodup hwritten]
      refine hclean (hkeys ▸ h.nodup) fun entry hentry => ?_
      have hmem : entry.1 ∈ tx.spent := hkeys ▸ mem_map_of_mem hentry
      dsimp only
      by_cases hcreated : entry.1 ∈ (createdIn env pindex tx).map Prod.fst
      · exact eraseAll_of_mem hcreated
      · rw [eraseAll_of_notMem hcreated, hsame, h.view_eq]
        exact (writeAll_of_notMem hcreated).trans (eraseAll_of_mem hmem)

/-! ## The transactions of a block -/

/-- The views through which the transactions of a block take the coins. -/
inductive Applies (env : Env) (pindex : CBlockIndex) :
    List CTransaction → CCoinsView → CCoinsView → Prop
  | nil (view : CCoinsView) : Applies env pindex [] view view
  | cons {tx : CTransaction} {rest : List CTransaction} {view next final : CCoinsView}
      (hfirst : view.updateCoins env.host.hash256 tx pindex.nHeight
        (isProtocolV12 env.params pindex.nTime.toNat) = .ok next)
      (hrest : Applies env pindex rest next final) : Applies env pindex (tx :: rest) view final

/-- What is asked of the transactions of a block after the first: none is a coinbase or the
genesis transaction again, and their amounts are in range. -/
structure Ordinary (env : Env) (genesis tx : CTransaction) : Prop where
  not_coinBase : tx.isCoinBase = false
  not_genesis : tx.getHash env.host.hash256 ≠ genesis.getHash env.host.hash256
  value : ∀ out ∈ tx.vout, moneyRange out.value = true

theorem Applies.coins_of_notMem (h : Applies env pindex txs view view')
    (hmem : outpoint ∉ txs.flatMap (touched env pindex)) :
    view'.coins outpoint = view.coins outpoint := by
  induction h with
  | nil view => rfl
  | cons hfirst hrest ih =>
    rw [flatMap_cons, mem_append, not_or] at hmem
    have happlied : AppliedIn env pindex _ _ _ := CCoinsView.applied_of_updateCoins hfirst
    rw [ih hmem.2, happlied.coins_of_notMem hmem.1]

/-- What the transactions do to a genesis output: it is not touched, or it is there and one of
them spends it. -/
theorem Applies.genesis_cases (h : Applies env pindex txs view view')
    (htxs : ∀ tx ∈ txs, tx.getHash env.host.hash256 ≠ genesis.getHash env.host.hash256)
    (hhash : key.hash = genesis.getHash env.host.hash256) :
    (key ∉ txs.flatMap (touched env pindex) ∧ view'.coins key = view.coins key) ∨
      (view.coins key ≠ none ∧ view'.coins key = none) := by
  induction h with
  | nil view => exact .inl ⟨by simp, rfl⟩
  | @cons tx rest view next final hfirst hrest ih =>
    have happlied : AppliedIn env pindex tx view next := CCoinsView.applied_of_updateCoins hfirst
    have hcreated : key ∉ (createdIn env pindex tx).map Prod.fst := fun hcreated =>
      htxs tx (.head _) ((hash_of_mem_createdIn hcreated).symm.trans hhash)
    replace ih := ih fun other hother => htxs other (mem_cons_of_mem tx hother)
    by_cases hspent : key ∈ tx.spent
    · have hgone : next.coins key = none := by
        rw [happlied.view_eq]
        exact (writeAll_of_notMem hcreated).trans (eraseAll_of_mem hspent)
      refine .inr ⟨Option.isSome_iff_ne_none.mp (happlied.present key hspent), ?_⟩
      exact ih.elim (fun hkept => hkept.2.trans hgone) And.right
    · have hnot : key ∉ touched env pindex tx := fun htouched =>
        (mem_append.mp htouched).elim hspent hcreated
      rw [← happlied.coins_of_notMem hnot, flatMap_cons, mem_append, not_or]
      exact ih.imp_left fun hkept => ⟨⟨hnot, hkept.1⟩, hkept.2⟩

/-- The transactions of a block with the undo data of each. -/
def undoPairs (env : Env) (pindex : CBlockIndex) (view : CCoinsView) (txs : List CTransaction) :
    List (CTransaction × Option CTxUndo) :=
  (blockViews env pindex view txs).map fun entry => (entry.1, some (txUndo entry.1 entry.2))

theorem undoPairs_cons (h : view.updateCoins env.host.hash256 tx pindex.nHeight
      (isProtocolV12 env.params pindex.nTime.toNat) = .ok next) :
    undoPairs env pindex view (tx :: txs) =
      (tx, some (txUndo tx view)) :: undoPairs env pindex next txs := by
  rw [undoPairs, blockViews, h]
  rfl

/-- Some transaction spends an output of the genesis transaction. -/
def SpendsGenesis (env : Env) (genesis : CTransaction) (txs : List CTransaction) : Prop :=
  ∃ tx ∈ txs, ∃ outpoint ∈ tx.spent, outpoint.hash = genesis.getHash env.host.hash256

/-- A genesis output that other transactions touch is spent by one of them. -/
theorem spendsGenesis_of_touched
    (htxs : ∀ tx ∈ txs, tx.getHash env.host.hash256 ≠ genesis.getHash env.host.hash256)
    (hmem : key ∈ txs.flatMap (touched env pindex))
    (hhash : key.hash = genesis.getHash env.host.hash256) : SpendsGenesis env genesis txs := by
  obtain ⟨tx, htx, htouched⟩ := mem_flatMap.mp hmem
  rcases mem_append.mp htouched with hspent | hcreated
  · exact ⟨tx, htx, key, hspent, hhash⟩
  · exact absurd ((hash_of_mem_createdIn hcreated).symm.trans hhash) (htxs tx htx)

/-- The coins of a block stay regular along its transactions. -/
theorem Regular.updateCoins (htx : Ordinary env genesis tx) (hpos : 0 < pindex.nHeight)
    (hheight : pindex.nHeight < 2 ^ 30) (hview : Regular env.host.hash256 genesis view.coins)
    (hfirst : view.updateCoins env.host.hash256 tx pindex.nHeight
      (isProtocolV12 env.params pindex.nTime.toNat) = .ok next) :
    Regular env.host.hash256 genesis next.coins :=
  hview.applied (CCoinsView.applied_of_updateCoins hfirst) hpos hheight htx.value htx.not_genesis

/-- Disconnecting the transactions puts the coins from before on every outpoint that they
touch.  Without an unspent output of the genesis transaction, transactions that spend one
cannot be disconnected. -/
theorem disconnectTxs_someIff (h : Applies env pindex txs view view')
    (htxs : ∀ tx ∈ txs, Ordinary env genesis tx)
    (hpos : 0 < pindex.nHeight) (hheight : pindex.nHeight < 2 ^ 30)
    (hview : Regular env.host.hash256 genesis view.coins)
    (hother : Regular env.host.hash256 genesis other.coins) : SomeIff
      (SpendsGenesis env genesis txs → HasOutput other.coins (genesis.getHash env.host.hash256))
      (disconnectTxs env pindex (undoPairs env pindex view txs) (other, fClean)) fun done =>
        done.1 = { other with
          coins := overlay (txs.flatMap (touched env pindex)) view.coins other.coins } ∧
          (other.coins = view'.coins → done.2 = fClean) := by
  induction h with
  | nil view => exact .inl ⟨by simp [SpendsGenesis], _, rfl, by simp, fun _ => rfl⟩
  | @cons tx rest view next final hfirst hrest ih =>
    have happlied : AppliedIn env pindex tx view next := CCoinsView.applied_of_updateCoins hfirst
    have htx := htxs tx (.head _)
    have htail : ∀ other ∈ rest, Ordinary env genesis other :=
      fun other hother => htxs other (mem_cons_of_mem tx hother)
    have hnext := hview.updateCoins htx hpos hheight hfirst
    rw [undoPairs_cons hfirst, disconnectTxs]
    rcases ih htail hnext with
      ⟨hneed, ⟨_, restClean⟩, hrestored, rfl, hrestClean⟩ | ⟨hneed, hrestored⟩
    · -- The genesis outputs that are there are not touched, or restored.
      have hstill : HasOutput
          (overlay (rest.flatMap (touched env pindex)) next.coins other.coins)
          (genesis.getHash env.host.hash256) ↔
          HasOutput other.coins (genesis.getHash env.host.hash256) := by
        have hothers := fun other hother => (htail other hother).not_genesis
        refine hasOutput_overlay_iff (fun key hkey hhash => ?_) fun ⟨key, hkey, hhash⟩ => ?_
        · exact ((hrest.genesis_cases hothers hhash).resolve_left fun hnot => hnot.1 hkey).1
        · exact hneed (spendsGenesis_of_touched hothers hkey hhash)
      have hback := @disconnectTx_someIff env pindex genesis tx view next { other with
        coins := overlay (rest.flatMap (touched env pindex)) next.coins other.coins }
        restClean happlied htx.not_coinBase htx.not_genesis hview (hnext.overlay hother _)
      rw [hstill] at hback
      rw [hrestored]
      refine hback.of_iff ⟨?_, ?_⟩ ?_
      · exact fun hall hspends => hall ⟨tx, .head _, hspends⟩
      · rintro hhas ⟨spender, hmem, hspends⟩
        rcases mem_cons.mp hmem with rfl | hmem
        · exact hhas hspends
        · exact hneed ⟨spender, hmem, hspends⟩
      · rintro ⟨done, clean⟩ ⟨rfl, hclean⟩
        refine ⟨?_, fun hsame => ?_⟩
        · rw [overlay_overlay fun key _ hnot => happlied.coins_of_notMem hnot, flatMap_cons]
        · rw [← hrestClean hsame]
          refine hclean (overlay_eq_left fun key hkey => ?_)
          rw [hsame, hrest.coins_of_notMem hkey]
    · right
      refine ⟨fun hall => hneed fun ⟨spender, hmem, hspends⟩ =>
        hall ⟨spender, .tail _ hmem, hspends⟩, ?_⟩
      rw [hrestored]

end Transactions

end Patchcoin
