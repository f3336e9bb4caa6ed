import Patchcoin.Consensus.TxInputs
import Patchcoin.Lib.Ledger
import Mathlib.Data.FinEnum

/-!
# What a transaction does to the coins

`updateCoins` erases the coins that a transaction spends and writes the ones
that it creates (`applied_of_updateCoins`).  The spent coins are there and
distinct, or the call aborts.  The created coins go to free outpoints, or the
call throws, unless the transaction is a coinbase, which may overwrite.
-/

namespace Patchcoin

open Ledger List

variable {fSkipZeroValue : Bool} {coin : CTxOut → Coin} {outs : List CTxOut} {txid : Uint256}

instance : Finite COutPoint :=
  Finite.of_injective (fun outpoint : COutPoint => (outpoint.hash, outpoint.n.toBitVec)) (by
    rintro ⟨hash, n⟩ ⟨hash', n'⟩ heq
    simpa [UInt32.toBitVec_inj] using heq)

/-- An output that `AddCoins` passes over. -/
def skipsOutput (fSkipZeroValue : Bool) (out : CTxOut) : Bool :=
  out.scriptPubKey.isUnspendable || (fSkipZeroValue && out.nValue == 0)

/-- The coins that `AddCoins` adds for the outputs from position `n` on. -/
def createdCoins (txid : Uint256) (coin : CTxOut → Coin) (fSkipZeroValue : Bool) :
    List CTxOut → ℕ → List (COutPoint × Coin)
  | [], _ => []
  | out :: rest, n =>
    if skipsOutput fSkipZeroValue out then createdCoins txid coin fSkipZeroValue rest (n + 1)
    else (⟨txid, UInt32.ofNat n⟩, coin out) ::
      createdCoins txid coin fSkipZeroValue rest (n + 1)

theorem mem_createdCoins {n : ℕ} {entry : COutPoint × Coin}
    (h : entry ∈ createdCoins txid coin fSkipZeroValue outs n) : entry.1.hash = txid ∧
      ∃ out ∈ outs, skipsOutput fSkipZeroValue out = false ∧ entry.2 = coin out := by
  induction outs generalizing n with
  | nil => exact absurd h not_mem_nil
  | cons out rest ih =>
    rw [createdCoins] at h
    have hrest (hmem : entry ∈ createdCoins txid coin fSkipZeroValue rest (n + 1)) :
        entry.1.hash = txid ∧
          ∃ other ∈ out :: rest, skipsOutput fSkipZeroValue other = false ∧
            entry.2 = coin other := by
      obtain ⟨hhash, other, hother, hkept⟩ := ih hmem
      exact ⟨hhash, other, mem_cons_of_mem out hother, hkept⟩
    split_ifs at h with hskip
    · exact hrest h
    · rcases mem_cons.mp h with rfl | hmem
      · exact ⟨rfl, out, .head _, Bool.eq_false_iff.mpr hskip, rfl⟩
      · exact hrest hmem

/-- The created coins have different outpoints, as long as the position is a number of 32
bits. -/
theorem nodup_createdCoins {n : ℕ} (hlength : n + outs.length ≤ 2 ^ 32) :
    ((createdCoins txid coin fSkipZeroValue outs n).map Prod.fst).Nodup ∧
      ∀ m < n, ⟨txid, UInt32.ofNat m⟩ ∉
        (createdCoins txid coin fSkipZeroValue outs n).map Prod.fst := by
  induction outs generalizing n with
  | nil => simp [createdCoins]
  | cons out rest ih =>
    rw [length_cons] at hlength
    obtain ⟨hnodup, hbelow⟩ := @ih (n + 1) (by omega)
    rw [createdCoins]
    split_ifs with hskip
    · exact ⟨hnodup, fun m hm => hbelow m (by omega)⟩
    · rw [map_cons]
      refine ⟨nodup_cons.mpr ⟨hbelow n (by omega), hnodup⟩, fun m hm hmem => ?_⟩
      rcases mem_cons.mp hmem with heq | hrest
      · have hposition : UInt32.ofNat m = UInt32.ofNat n := congrArg COutPoint.n heq
        have hnat := congrArg UInt32.toNat hposition
        rw [UInt32.toNat_ofNat', UInt32.toNat_ofNat', Nat.mod_eq_of_lt (by omega),
          Nat.mod_eq_of_lt (by omega)] at hnat
        omega
      · exact hbelow m (by omega) hrest

namespace CTransaction

/-- The outpoints that a transaction spends. -/
def spent (tx : CTransaction) : List COutPoint :=
  if tx.isCoinBase then [] else tx.vin.map CTxIn.prevout

/-- The coin that a transaction makes of one of its outputs. -/
def coinOf (tx : CTransaction) (nHeight : ℕ) (out : CTxOut) : Coin :=
  ⟨out, tx.isCoinBase, tx.isCoinStake, nHeight, tx.nTime⟩

/-- The coins that a transaction creates. -/
def created (hash256 : List UInt8 → Uint256) (tx : CTransaction) (nHeight : ℕ)
    (fSkipZeroValue : Bool) : List (COutPoint × Coin) :=
  createdCoins (tx.getHash hash256) (tx.coinOf nHeight) fSkipZeroValue tx.vout 0

end CTransaction

namespace CCoinsView

variable {view view' : CCoinsView} {prevout : COutPoint}
variable {fSkipZeroValue overwrite : Bool}

/-! ## Spending -/

theorem spendCoin_eq_some_iff : view.spendCoin prevout = some view' ↔
    (view.coins prevout).isSome = true ∧
      view' = { view with coins := write view.coins prevout none } := by
  unfold spendCoin
  split_ifs with hnone
  · simp only [false_iff, not_and]
    intro hsome
    rw [Option.isNone_iff_eq_none] at hnone
    rw [hnone] at hsome
    cases hsome
  · have hsome : (view.coins prevout).isSome = true := by
      rw [Option.isNone_iff_eq_none] at hnone
      exact Option.isSome_iff_ne_none.mpr hnone
    simp only [Option.some.injEq, hsome, true_and]
    exact eq_comm

theorem spendCoins_of_some {vin : List CTxIn} (h : spendCoins view vin = some view') :
    (vin.map CTxIn.prevout).Nodup ∧ (∀ input ∈ vin, (view.coins input.prevout).isSome = true) ∧
      view' = { view with coins := eraseAll view.coins (vin.map CTxIn.prevout) } := by
  induction vin generalizing view with
  | nil =>
    cases h
    exact ⟨nodup_nil, by simp, by simp⟩
  | cons input rest ih =>
    rw [spendCoins] at h
    cases hspend : view.spendCoin input.prevout with
    | none => rw [hspend] at h; exact absurd h (by simp)
    | some next =>
      rw [hspend] at h
      obtain ⟨hsome, rfl⟩ := spendCoin_eq_some_iff.mp hspend
      obtain ⟨hnodup, hpresent, rfl⟩ := ih h
      -- an outpoint that is spent again is not there any more
      have hother : ∀ other ∈ rest, other.prevout ≠ input.prevout := by
        intro other hother heq
        have hgone := hpresent other hother
        simp [heq] at hgone
      refine ⟨?_, ?_, ?_⟩
      · rw [map_cons, nodup_cons]
        refine ⟨fun hmem => ?_, hnodup⟩
        obtain ⟨other, hrest, heq⟩ := mem_map.mp hmem
        exact hother other hrest heq
      · intro other hmem
        rcases mem_cons.mp hmem with rfl | hrest
        · exact hsome
        · have hthere : (write view.coins input.prevout none other.prevout).isSome = true :=
            hpresent other hrest
          rwa [write_of_ne (hother other hrest)] at hthere
      · rw [map_cons, eraseAll_cons]

/-! ## Adding -/

theorem addCoin_of_some {coin : Coin}
    (h : view.addCoin prevout coin overwrite fSkipZeroValue = some view') :
    (skipsOutput fSkipZeroValue coin.out = true ∧ view' = view) ∨
      (skipsOutput fSkipZeroValue coin.out = false ∧
        (overwrite = false → view.coins prevout = none) ∧
        view' = { view with coins := write view.coins prevout (some coin) }) := by
  unfold addCoin at h
  unfold skipsOutput
  split_ifs at h with hscript hzero hclash
  · exact .inl ⟨by simp [hscript], (Option.some.inj h).symm⟩
  · exact .inl ⟨by simp [hzero], (Option.some.inj h).symm⟩
  · refine .inr ⟨by simp [hscript, hzero], fun hkeep => ?_, (Option.some.inj h).symm⟩
    simpa [hkeep] using hclash

theorem addCoins_of_some {txid : Uint256} {coin : CTxOut → Coin}
    (hcoin : ∀ out, (coin out).out = out) {outs : List CTxOut} {n : ℕ}
    (h : addCoins txid coin overwrite fSkipZeroValue view outs n = some view') : view' = { view with
        coins := writeAll view.coins (createdCoins txid coin fSkipZeroValue outs n) } ∧
      (overwrite = false →
        ((createdCoins txid coin fSkipZeroValue outs n).map Prod.fst).Nodup ∧
        ∀ key ∈ (createdCoins txid coin fSkipZeroValue outs n).map Prod.fst,
          view.coins key = none) := by
  induction outs generalizing view n with
  | nil =>
    cases h
    exact ⟨rfl, fun _ => ⟨nodup_nil, by simp [createdCoins]⟩⟩
  | cons out rest ih =>
    rw [addCoins] at h
    cases hadd : view.addCoin ⟨txid, UInt32.ofNat n⟩ (coin out) overwrite fSkipZeroValue with
    | none => rw [hadd] at h; exact absurd h (by simp)
    | some next =>
      rw [hadd] at h
      obtain ⟨heq, hfree⟩ := ih h
      rcases addCoin_of_some hadd with ⟨hskip, rfl⟩ | ⟨hskip, hclash, rfl⟩
      · rw [hcoin] at hskip
        rw [createdCoins, if_pos hskip]
        exact ⟨heq, hfree⟩
      · rw [hcoin] at hskip
        rw [createdCoins, if_neg (by simp [hskip])]
        refine ⟨heq, fun hkeep => ?_⟩
        obtain ⟨hnodup, hnone⟩ := hfree hkeep
        -- what is written after this coin goes to other outpoints
        have hother : ∀ key ∈ (createdCoins txid coin fSkipZeroValue rest (n + 1)).map
            Prod.fst, key ≠ ⟨txid, UInt32.ofNat n⟩ := by
          rintro key hkey rfl
          have htaken := hnone _ hkey
          simp at htaken
        rw [map_cons]
        refine ⟨nodup_cons.mpr ⟨fun hmem => hother _ hmem rfl, hnodup⟩, ?_⟩
        intro key hkey
        rcases mem_cons.mp hkey with rfl | hrest
        · exact hclash hkeep
        · have hthere : write view.coins ⟨txid, UInt32.ofNat n⟩ (some (coin out)) key = none :=
            hnone key hrest
          rwa [write_of_ne (hother key hrest)] at hthere

/-! ## A transaction -/

/-- The view after a transaction, and what made it possible to apply it. -/
structure Applied (hash256 : List UInt8 → Uint256) (nHeight : ℕ) (fSkipZeroValue : Bool)
    (tx : CTransaction) (view view' : CCoinsView) : Prop where
  nodup : tx.spent.Nodup
  present : ∀ outpoint ∈ tx.spent, (view.coins outpoint).isSome = true
  view_eq : view' = { view with
    coins := writeAll (eraseAll view.coins tx.spent)
      (tx.created hash256 nHeight fSkipZeroValue) }
  free : tx.isCoinBase = false →
    ((tx.created hash256 nHeight fSkipZeroValue).map Prod.fst).Nodup ∧
      ∀ key ∈ (tx.created hash256 nHeight fSkipZeroValue).map Prod.fst,
        eraseAll view.coins tx.spent key = none

theorem applied_of_updateCoins {hash256 : List UInt8 → Uint256} {nHeight : ℕ} {tx : CTransaction}
    (h : view.updateCoins hash256 tx nHeight fSkipZeroValue = .ok view') :
    Applied hash256 nHeight fSkipZeroValue tx view view' := by
  unfold updateCoins at h
  cases hspent : if tx.isCoinBase then some view else spendCoins view tx.vin with
  | none => rw [hspent] at h; exact absurd h (by simp)
  | some spent =>
    rw [hspent] at h
    dsimp only at h
    cases hadd : addCoins (tx.getHash hash256)
        (fun out => ⟨out, tx.isCoinBase, tx.isCoinStake, nHeight, tx.nTime⟩) tx.isCoinBase
        fSkipZeroValue spent tx.vout 0 with
    | none => rw [hadd] at h; exact absurd h (by simp)
    | some added =>
      rw [hadd] at h
      cases h
      obtain ⟨heq, hfree⟩ := addCoins_of_some (fun _ => rfl) hadd
      have hinputs : tx.spent.Nodup ∧
          (∀ outpoint ∈ tx.spent, (view.coins outpoint).isSome = true) ∧
          spent = { view with coins := eraseAll view.coins tx.spent } := by
        unfold CTransaction.spent
        split_ifs at hspent ⊢ with hcoinbase
        · cases hspent
          exact ⟨nodup_nil, by simp, by simp⟩
        · obtain ⟨hnodup, hpresent, hview⟩ := spendCoins_of_some hspent
          refine ⟨hnodup, ?_, hview⟩
          intro outpoint hmem
          obtain ⟨input, hinput, rfl⟩ := mem_map.mp hmem
          exact hpresent input hinput
      obtain ⟨hnodup, hpresent, rfl⟩ := hinputs
      exact ⟨hnodup, hpresent, heq, hfree⟩

end CCoinsView

end Patchcoin
