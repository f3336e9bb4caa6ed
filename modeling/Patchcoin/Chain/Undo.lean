import Patchcoin.Primitives.Compressor
import Patchcoin.Consensus.Coins
import Patchcoin.Chain.ConnectSteps

/-!
# Undo data and disconnecting a block

`ConnectBlock` keeps the coins that the transactions of a block have spent and
writes them to the undo file.  `disconnectBlock` reads them back and takes the
transactions of the block away from the last to the first: it spends the outputs
and restores the inputs.

An undo record of height zero is taken for one that lacks its metadata.  Height,
time and flags are then those of any other unspent output of the same
transaction, and there has to be one.
-/

namespace Patchcoin

open Reader PrefixCode

/-! ## The undo file -/

/-- `CTxUndo` -/
structure CTxUndo where
  vprevout : List Coin
  deriving DecidableEq, Repr

/-- `CBlockUndo`: the undo data of all transactions but the coinbase. -/
structure CBlockUndo where
  vtxundo : List CTxUndo
  deriving DecidableEq, Repr

section Format

variable (keys : PubKeys)

/-- The height and the flags of a coin in one number of 32 bits. -/
def undoCode (coin : Coin) : ℕ :=
  (coin.nHeight * 4 + coin.fCoinBase.toNat + if coin.fCoinStake then 2 else 0) % 2 ^ 32

/-- `TxInUndoFormatter::Ser` -/
def serTxInUndo (coin : Coin) : List UInt8 :=
  writeVarInt 32 (undoCode coin) ++ (writeVarInt 32 coin.nTime.toNat ++
    ((if 0 < coin.nHeight then writeVarInt 32 0 else []) ++ serCompressedOut keys coin.out))

/-- `TxInUndoFormatter::Unser`.  The version that old records carry is read and dropped. -/
def readTxInUndo : Reader Coin :=
  (readVarInt 32).andThen fun nCode => (readVarInt 32).andThen fun nTime =>
    (if 0 < nCode / 4 then readVarInt 32 else done 0).andThen fun _ =>
      (readCompressedOut keys).andThen fun out =>
        done ⟨out, nCode % 2 == 1, nCode / 2 % 2 == 1, nCode / 4, UInt32.ofNat nTime⟩

def serTxUndo (txundo : CTxUndo) : List UInt8 := lengthPrefixed (serTxInUndo keys) txundo.vprevout

def readTxUndo : Reader CTxUndo :=
  (readVector MAX_SIZE (readTxInUndo keys)).andThen fun vprevout => done ⟨vprevout⟩

def serBlockUndo (blockundo : CBlockUndo) : List UInt8 :=
  lengthPrefixed (serTxUndo keys) blockundo.vtxundo

def readBlockUndo : Reader CBlockUndo :=
  (readVector MAX_SIZE (readTxUndo keys)).andThen fun vtxundo => done ⟨vtxundo⟩

/-- `UndoWriteToDisk`: the data and a checksum over the parent hash and the data. -/
def undoWriteToDisk (hash256 : List UInt8 → Uint256) (hashBlock : Uint256)
    (blockundo : CBlockUndo) : List UInt8 :=
  serBlockUndo keys blockundo ++
    (hash256 (hashBlock.toBytes ++ serBlockUndo keys blockundo)).toBytes

/-- `UndoReadFromDisk`.  The checksum is taken over the bytes that were read. -/
def undoReadFromDisk (hash256 : List UInt8 → Uint256) (hashBlock : Uint256)
    (file : List UInt8) : Option CBlockUndo :=
  match readBlockUndo keys file with
  | none => none
  | some (blockundo, rest) =>
    match readBytes 32 rest with
    | none => none
    | some (hashChecksum, _) =>
      if hashChecksum =
          (hash256 (hashBlock.toBytes ++ file.take (file.length - rest.length))).toBytes then
        some blockundo
      else none

end Format

/-! ## What is written and what is read -/

/-- A coin that the formats of the coin database and of the undo files can hold. -/
structure Coin.Storable (coin : Coin) : Prop where
  value : moneyRange coin.out.value = true
  script : coin.out.scriptPubKey.isUnspendable = false
  height : coin.nHeight < 2 ^ 30

section RoundTrip

variable {keys : PubKeys} {coin : Coin}
variable {blockundo : CBlockUndo}

theorem Coin.Storable.size_le (h : coin.Storable) :
    coin.out.scriptPubKey.size ≤ MAX_SCRIPT_SIZE := by
  have hscript := h.script
  simp only [CScript.isUnspendable, Bool.or_eq_false_iff, decide_eq_false_iff_not, not_lt]
    at hscript
  exact hscript.2

theorem reads_readTxInUndo (hkeys : keys.Restores) (hvalue : moneyRange coin.out.value = true)
    (hsize : coin.out.scriptPubKey.size ≤ MAX_SCRIPT_SIZE) (hheight : coin.nHeight < 2 ^ 30) :
    Reads (readTxInUndo keys) (serTxInUndo keys coin) coin := by
  have hcode : undoCode coin =
      coin.nHeight * 4 + coin.fCoinBase.toNat + if coin.fCoinStake then 2 else 0 := by
    have := Bool.toNat_le coin.fCoinBase
    unfold undoCode
    split_ifs <;> omega
  have hfields : undoCode coin / 4 = coin.nHeight ∧ (undoCode coin % 2 == 1) = coin.fCoinBase ∧
      (undoCode coin / 2 % 2 == 1) = coin.fCoinStake := by
    rw [hcode]
    cases coin.fCoinBase <;> cases coin.fCoinStake <;>
      simp only [Bool.toNat_true, Bool.toNat_false, if_true, if_false, Bool.false_eq_true,
        beq_iff_eq, beq_eq_false_iff_ne, ne_eq] <;> omega
  obtain ⟨hheightCode, hcoinbase, hcoinstake⟩ := hfields
  have hcodeRead := @reads_readVarInt 32 (undoCode coin) (by omega) (Nat.mod_lt _ (by omega))
  have htimeRead := @reads_readVarInt 32 coin.nTime.toNat (by omega) coin.nTime.toNat_lt
  have hdummy : Reads (if 0 < coin.nHeight then readVarInt 32 else done 0)
      (if 0 < coin.nHeight then writeVarInt 32 0 else []) 0 := by
    split_ifs
    · exact reads_readVarInt (by omega) (by omega)
    · exact reads_done 0
  have hout := (reads_readCompressedOut hkeys hvalue hsize).map fun out =>
    Coin.mk out coin.fCoinBase coin.fCoinStake coin.nHeight coin.nTime
  refine hcodeRead.andThen (htimeRead.andThen ?_)
  rw [hheightCode, hcoinbase, hcoinstake, UInt32.ofNat_toNat]
  exact hdummy.andThen hout

/-- Undo data that the file format can hold. -/
structure CBlockUndo.Storable (blockundo : CBlockUndo) : Prop where
  length : blockundo.vtxundo.length ≤ MAX_SIZE
  inputs : ∀ txundo ∈ blockundo.vtxundo, txundo.vprevout.length ≤ MAX_SIZE
  coins : ∀ txundo ∈ blockundo.vtxundo, ∀ coin ∈ txundo.vprevout, coin.Storable

theorem reads_readBlockUndo (hkeys : keys.Restores) (h : blockundo.Storable) :
    Reads (readBlockUndo keys) (serBlockUndo keys blockundo) blockundo := by
  have hlimit {n : ℕ} (hn : n ≤ MAX_SIZE) : n < 2 ^ 64 := by
    rw [MAX_SIZE] at hn
    omega
  have htx : ∀ txundo ∈ blockundo.vtxundo,
      Reads (readTxUndo keys) (serTxUndo keys txundo) txundo := by
    intro txundo hmem
    have hlength := h.inputs txundo hmem
    exact (reads_readVector (hlimit hlength) hlength fun coin hcoin =>
      have hstorable := h.coins txundo hmem coin hcoin
      reads_readTxInUndo hkeys hstorable.value hstorable.size_le hstorable.height).map CTxUndo.mk
  exact (reads_readVector (hlimit h.length) h.length htx).map CBlockUndo.mk

/-- Undo data survives the file. -/
theorem undoReadFromDisk_undoWriteToDisk (hkeys : keys.Restores) (hash256 : List UInt8 → Uint256)
    (hashBlock : Uint256) (h : blockundo.Storable) :
    undoReadFromDisk keys hash256 hashBlock (undoWriteToDisk keys hash256 hashBlock blockundo) =
      some blockundo := by
  have hchecksum (hash : Uint256) : readBytes 32 hash.toBytes = some (hash.toBytes, []) := by
    have hlength : hash.toBytes.length = 32 := length_leBytes 32 _
    have hreads := reads_readBytes hash.toBytes []
    rwa [hlength, List.append_nil] at hreads
  unfold undoReadFromDisk undoWriteToDisk
  rw [reads_readBlockUndo hkeys h]
  dsimp only
  rw [hchecksum]
  dsimp only
  rw [List.length_append, Nat.add_sub_cancel, List.take_left, if_pos rfl]

end RoundTrip

/-! ## Disconnecting -/

/-- `DisconnectResult` -/
inductive DisconnectResult where
  | DISCONNECT_OK
  | DISCONNECT_UNCLEAN
  | DISCONNECT_FAILED
  deriving DecidableEq, Repr

/-- More outputs than any block can have: the block weight over the weight of an empty
output. -/
def MAX_OUTPUTS_PER_BLOCK : ℕ :=
  MAX_BLOCK_WEIGHT / (WITNESS_SCALE_FACTOR * (serTxOut ⟨-1, ⟨[]⟩⟩).length)

namespace CCoinsView

/-- The loop of `AccessByTxid`: the first unspent output from position `n` on. -/
def accessFrom (view : CCoinsView) (txid : Uint256) : ℕ → ℕ → Option Coin
  | 0, _ => none
  | fuel + 1, n =>
    match view.coins ⟨txid, UInt32.ofNat n⟩ with
    | some coin => some coin
    | none => accessFrom view txid fuel (n + 1)

/-- `AccessByTxid`; `none` stands for the spent coin. -/
def accessByTxid (view : CCoinsView) (txid : Uint256) : Option Coin :=
  accessFrom view txid MAX_OUTPUTS_PER_BLOCK 0

/-- The coin that an undo record stands for: a record of height zero takes its metadata
from another output. -/
def undoCoin (view : CCoinsView) (undo : Coin) (out : COutPoint) : Option Coin :=
  if undo.nHeight = 0 then
    (view.accessByTxid out.hash).map fun alternate => { alternate with out := undo.out }
  else some undo

/-- `ApplyTxInUndo`: the view and whether the outpoint was free; `none` if it fails. -/
def applyTxInUndo (view : CCoinsView) (undo : Coin) (out : COutPoint) :
    Option (CCoinsView × Bool) :=
  let fClean := (view.coins out).isNone
  match view.undoCoin undo out with
  | none => none
  | some undo => (view.addCoin out undo (!fClean) false).map fun view => (view, fClean)

/-- The inputs of a transaction are restored, the last one first. -/
def restoreInputs : List (COutPoint × Coin) → CCoinsView × Bool → Option (CCoinsView × Bool)
  | [], st => some st
  | (prevout, undo) :: rest, st =>
    match restoreInputs rest st with
    | none => none
    | some (view, fClean) =>
      (view.applyTxInUndo undo prevout).map fun applied => (applied.1, fClean && applied.2)

/-- A coin is the one that the transaction makes of an output; its time is not compared. -/
def sameOutput (tx : CTransaction) (nHeight : ℕ) (out : CTxOut) (coin : Coin) : Bool :=
  out == coin.out && nHeight == coin.nHeight && tx.isCoinBase == coin.fCoinBase &&
    tx.isCoinStake == coin.fCoinStake

/-- The outputs of a transaction from position `o` on are spent, and compared. -/
def spendOutputs (hash : Uint256) (same : CTxOut → Coin → Bool) (fSkipZeroValue : Bool) :
    List CTxOut → ℕ → CCoinsView × Bool → CCoinsView × Bool
  | [], _, st => st
  | out :: rest, o, (view, fClean) =>
    if skipsOutput fSkipZeroValue out then
      spendOutputs hash same fSkipZeroValue rest (o + 1) (view, fClean)
    else
      spendOutputs hash same fSkipZeroValue rest (o + 1)
        ((view.spendCoin ⟨hash, UInt32.ofNat o⟩).getD view,
          fClean && (view.coins ⟨hash, UInt32.ofNat o⟩).any (same out))

end CCoinsView

section Disconnect

variable (env : Env) (pindex : CBlockIndex)

/-- The body of the loop of `DisconnectBlock`; the first transaction has no undo data. -/
def disconnectTx (tx : CTransaction) (txundo : Option CTxUndo) (st : CCoinsView × Bool) :
    Option (CCoinsView × Bool) :=
  let st := CCoinsView.spendOutputs (tx.getHash env.host.hash256)
    (CCoinsView.sameOutput tx pindex.nHeight) (isProtocolV12 env.params pindex.nTime.toNat)
    tx.vout 0 st
  match txundo with
  | none => some st
  | some txundo =>
    if txundo.vprevout.length ≠ tx.vin.length then none
    else CCoinsView.restoreInputs ((tx.vin.map CTxIn.prevout).zip txundo.vprevout) st

/-- The loop of `DisconnectBlock`, from the last transaction to the first. -/
def disconnectTxs : List (CTransaction × Option CTxUndo) → CCoinsView × Bool →
    Option (CCoinsView × Bool)
  | [], st => some st
  | (tx, txundo) :: rest, st =>
    match disconnectTxs rest st with
    | none => none
    | some st => disconnectTx env pindex tx txundo st

/-- `Chainstate::DisconnectBlock` with what `UndoReadFromDisk` returned.  After a failure
the view is of no use; here it is the one that came in. -/
def disconnectBlock (blockUndo : Option CBlockUndo) (block : CBlock) (hashPrev : Uint256)
    (view : CCoinsView) : DisconnectResult × CCoinsView :=
  match blockUndo with
  | none => (.DISCONNECT_FAILED, view)
  | some blockUndo =>
    if blockUndo.vtxundo.length + 1 ≠ block.vtx.length then (.DISCONNECT_FAILED, view)
    else
      match disconnectTxs env pindex
          (block.vtx.zip (none :: blockUndo.vtxundo.map some)) (view, true) with
      | none => (.DISCONNECT_FAILED, view)
      | some (view, fClean) =>
        (if fClean then .DISCONNECT_OK else .DISCONNECT_UNCLEAN,
          { view with bestBlock := hashPrev })

/-- The undo data of a transaction: the coins that `UpdateCoins` spends. -/
def txUndo (tx : CTransaction) (view : CCoinsView) : CTxUndo :=
  ⟨if tx.isCoinBase then [] else tx.vin.map fun input => view.accessCoin input.prevout⟩

/-- The undo data that `ConnectBlock` gathers, for all transactions but the first. -/
def undoOf (view : CCoinsView) (vtx : List CTransaction) : CBlockUndo :=
  ⟨(blockViews env pindex view vtx).tail.map fun entry => txUndo entry.1 entry.2⟩

end Disconnect

end Patchcoin
