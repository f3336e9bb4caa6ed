import Patchcoin.Lib.Reader
import Patchcoin.Primitives.Codes
import Patchcoin.Consensus.Claims

/-!
# Reading transactions and blocks

The readers that belong to the encodings of transactions and blocks.  What is read is what
was written, but for one field: the time of a transaction of version 3 or later is not in
the stream, and the reader sets it to zero (`CTransaction.received`).

The extended format with witness data is announced by an empty input vector.  A transaction
without inputs is therefore not read back in general; transactions of blocks have some.
-/

namespace Patchcoin

open PrefixCode Reader

/-! ## Fields -/

def readUInt32 : Reader UInt32 := (readLe 4).andThen fun n => done (UInt32.ofNat n)

def readInt32 : Reader Int32 := (readLe 4).andThen fun n => done (UInt32.ofNat n).toInt32

def readInt64 : Reader Int64 := (readLe 8).andThen fun n => done (UInt64.ofNat n).toInt64

def readUint256 : Reader Uint256 := (readLe 32).andThen fun n => done (BitVec.ofNat 256 n)

def readUInt8 : Reader UInt8 := (readLe 1).andThen fun n => done (UInt8.ofNat n)

/-- A byte vector with its length. -/
def readByteVector : Reader (List UInt8) := readVector MAX_SIZE readUInt8

def readOutPoint : Reader COutPoint :=
  readUint256.andThen fun hash => readUInt32.andThen fun n => done ⟨hash, n⟩

def readTxIn : Reader CTxIn :=
  readOutPoint.andThen fun prevout => readByteVector.andThen fun scriptSig =>
    readUInt32.andThen fun nSequence => done ⟨prevout, ⟨scriptSig⟩, nSequence, []⟩

def readTxOut : Reader CTxOut :=
  readInt64.andThen fun nValue => readByteVector.andThen fun script => done ⟨nValue, ⟨script⟩⟩

/-! ## Transactions -/

/-- The version and the time, which later versions do not carry. -/
def readTxVersion : Reader (Int32 × UInt32) :=
  readInt32.andThen fun nVersion =>
    if nVersion.toInt < 3 then readUInt32.andThen fun nTime => done (nVersion, nTime)
    else done (nVersion, 0)

/-- The flags, the inputs and the outputs. -/
def readTxBody (fAllowWitness : Bool) : Reader (UInt8 × List CTxIn × List CTxOut) :=
  (readVector MAX_SIZE readTxIn).andThen fun vin =>
    if vin.isEmpty && fAllowWitness then
      readUInt8.andThen fun flags =>
        if flags = 0 then done (0, [], [])
        else (readVector MAX_SIZE readTxIn).andThen fun vin =>
          (readVector MAX_SIZE readTxOut).andThen fun vout => done (flags, vin, vout)
    else (readVector MAX_SIZE readTxOut).andThen fun vout => done (0, vin, vout)

/-- A witness for each input. -/
def readWitnesses : List CTxIn → Reader (List CTxIn)
  | [] => done []
  | input :: rest => (readVector MAX_SIZE readByteVector).andThen fun stack =>
    (readWitnesses rest).andThen fun rest => done ({ input with scriptWitness := stack } :: rest)

/-- The inputs with their witnesses, and the flags that are left. -/
def readTxWitness (fAllowWitness : Bool) (flags : UInt8) (vin : List CTxIn) :
    Reader (UInt8 × List CTxIn) :=
  if flags &&& 1 ≠ 0 && fAllowWitness then
    (readWitnesses vin).andThen fun vin =>
      if vin.any fun input => !input.scriptWitness.isEmpty then done (flags ^^^ 1, vin)
      else fail
  else done (flags, vin)

/-- `UnserializeTransaction`. -/
def unserializeTransaction (fAllowWitness : Bool) : Reader CTransaction :=
  readTxVersion.andThen fun version => (readTxBody fAllowWitness).andThen fun body =>
    (readTxWitness fAllowWitness body.1 body.2.1).andThen fun witness =>
      if witness.1 ≠ 0 then fail
      else readUInt32.andThen fun nLockTime =>
        done ⟨witness.2, body.2.2, version.1, version.2, nLockTime⟩

/-! ## Blocks -/

def readClaim : Reader CClaim :=
  readInt32.andThen fun nVersion => readByteVector.andThen fun source =>
    readByteVector.andThen fun target => readByteVector.andThen fun signature =>
      (unserializeTransaction true).andThen fun dummyTx =>
        done ⟨nVersion, ⟨source⟩, ⟨target⟩, signature, dummyTx⟩

/-- A header with the marker of proof of stake, as it is sent. -/
def readMarkedHeader : Reader CBlockHeader :=
  readInt32.andThen fun nVersion => readUint256.andThen fun hashPrevBlock =>
    readUint256.andThen fun hashMerkleRoot => readUInt32.andThen fun nTime =>
      readUInt32.andThen fun nBits => readUInt32.andThen fun nNonce =>
        readUInt32.andThen fun nFlags =>
          done ⟨nVersion, hashPrevBlock, hashMerkleRoot, nTime, nBits, nNonce, nFlags⟩

/-- A block as it is sent (`SER_NETWORK | SER_POSMARKER`). -/
def serSentBlock (block : CBlock) : List UInt8 :=
  (serHeader block.toCBlockHeader ++ serUInt32 block.nFlags) ++
    (lengthPrefixed (serializeTransaction true) block.vtx ++
      (serBytes block.vchBlockSig ++ lengthPrefixed serClaim block.vClaim))

/-- A block from the network. -/
def readBlock : Reader CBlock :=
  readMarkedHeader.andThen fun header =>
    (readVector MAX_SIZE (unserializeTransaction true)).andThen fun vtx =>
      readByteVector.andThen fun vchBlockSig =>
        (readVector MAX_SIZE readClaim).andThen fun vClaim =>
        done { header with vtx, vchBlockSig, vClaim }

/-! ## What is read back -/

theorem reads_readUInt32 (n : UInt32) : Reads readUInt32 (serUInt32 n) n := by
  have hread := (reads_readLe (show n.toNat < 256 ^ 4 from n.toNat_lt)).map UInt32.ofNat
  rwa [UInt32.ofNat_toNat] at hread

theorem reads_readInt32 (n : Int32) : Reads readInt32 (serInt32 n) n := by
  have hread := (reads_readLe (show n.toUInt32.toNat < 256 ^ 4 from n.toUInt32.toNat_lt)).map
    fun n => (UInt32.ofNat n).toInt32
  rwa [UInt32.ofNat_toNat, Int32.toInt32_toUInt32] at hread

theorem reads_readInt64 (n : Int64) : Reads readInt64 (serInt64 n) n := by
  have hread := (reads_readLe (show n.toUInt64.toNat < 256 ^ 8 from n.toUInt64.toNat_lt)).map
    fun n => (UInt64.ofNat n).toInt64
  rwa [UInt64.ofNat_toNat, Int64.toInt64_toUInt64] at hread

theorem reads_readUint256 (hash : Uint256) : Reads readUint256 hash.toBytes hash := by
  have hread := (reads_readLe (show hash.toNat < 256 ^ 32 from hash.isLt)).map (BitVec.ofNat 256)
  rwa [BitVec.ofNat_toNat, BitVec.setWidth_eq] at hread

theorem reads_readUInt8 (byte : UInt8) : Reads readUInt8 [byte] byte := by
  have hread := (reads_readLe (show byte.toNat < 256 ^ 1 from byte.toNat_lt)).map UInt8.ofNat
  have hbytes : leBytes 1 byte.toNat = [byte] := by
    simp [leBytes]
  rwa [UInt8.ofNat_toNat, hbytes] at hread

theorem reads_readByteVector {bytes : List UInt8} (h : bytes.length ≤ MAX_SIZE) :
    Reads readByteVector (serBytes bytes) bytes :=
  reads_readVector (by rw [MAX_SIZE] at h; omega) h fun byte _ => reads_readUInt8 byte

theorem reads_readOutPoint (prevout : COutPoint) :
    Reads readOutPoint (serOutPoint prevout) prevout :=
  (reads_readUint256 prevout.hash).andThen ((reads_readUInt32 prevout.n).map _)

theorem reads_readTxIn {input : CTxIn} (h : input.scriptSig.size ≤ MAX_SIZE) :
    Reads readTxIn (serTxIn input) input.stripped :=
  (reads_readOutPoint input.prevout).andThen
    ((reads_readByteVector h).andThen ((reads_readUInt32 input.nSequence).map _))

theorem reads_readTxOut {out : CTxOut} (h : out.scriptPubKey.size ≤ MAX_SIZE) :
    Reads readTxOut (serTxOut out) out :=
  (reads_readInt64 out.nValue).andThen ((reads_readByteVector h).map _)

/-- The inputs are read back without their witnesses. -/
theorem reads_readInputs {vin : List CTxIn} (hcount : vin.length ≤ MAX_SIZE)
    (hscripts : ∀ input ∈ vin, input.scriptSig.size ≤ MAX_SIZE) :
    Reads (readVector MAX_SIZE readTxIn) (lengthPrefixed serTxIn vin)
      (vin.map CTxIn.stripped) :=
  reads_readVector_map (by rw [MAX_SIZE] at hcount; omega) hcount
    fun input hinput => reads_readTxIn (hscripts input hinput)

theorem reads_readOutputs {vout : List CTxOut} (hcount : vout.length ≤ MAX_SIZE)
    (hscripts : ∀ out ∈ vout, out.scriptPubKey.size ≤ MAX_SIZE) :
    Reads (readVector MAX_SIZE readTxOut) (lengthPrefixed serTxOut vout) vout :=
  reads_readVector (by rw [MAX_SIZE] at hcount; omega) hcount
    fun out hout => reads_readTxOut (hscripts out hout)

theorem reads_readWitnesses {vin : List CTxIn}
    (h : ∀ input ∈ vin, input.scriptWitness.length ≤ MAX_SIZE ∧
      ∀ item ∈ input.scriptWitness, item.length ≤ MAX_SIZE) :
    Reads (readWitnesses (vin.map CTxIn.stripped))
      (vin.flatMap fun input => serWitness input.scriptWitness) vin := by
  induction vin with
  | nil => exact reads_done []
  | cons input rest ih =>
    obtain ⟨hcount, hitems⟩ := h input (.head _)
    have hstack : Reads (readVector MAX_SIZE readByteVector) (serWitness input.scriptWitness)
        input.scriptWitness :=
      reads_readVector (by rw [MAX_SIZE] at hcount; omega) hcount
        fun item hitem => reads_readByteVector (hitems item hitem)
    have hrest := ih fun other hother => h other (.tail _ hother)
    exact hstack.andThen (hrest.map _)

namespace CTransaction

variable {tx : CTransaction}

theorem reads_readTxVersion (tx : CTransaction) :
    Reads readTxVersion (serTxVersion tx) (tx.nVersion, tx.received.nTime) := by
  unfold readTxVersion serTxVersion received
  refine (reads_readInt32 tx.nVersion).andThen ?_
  split
  · exact (reads_readUInt32 tx.nTime).map _
  · exact reads_done _

/-- What `UnserializeTransaction` reads after the version, without witnesses. -/
theorem reads_readTxBody (hvin : tx.vin ≠ []) (hfits : tx.Fits MAX_SIZE) :
    Reads (readTxBody true) (lengthPrefixed serTxIn tx.vin ++ lengthPrefixed serTxOut tx.vout)
      (0, tx.vin.map CTxIn.stripped, tx.vout) := by
  have hempty : ((tx.vin.map CTxIn.stripped).isEmpty && true) = false := by
    simp [hvin]
  refine (reads_readInputs hfits.vin hfits.scriptSig).andThen ?_
  rw [if_neg (by rw [hempty]; simp)]
  exact (reads_readOutputs hfits.vout hfits.scriptPubKey).map _

/-- The extended format starts with an empty vector and the flags. -/
theorem reads_readTxBody_extended (hfits : tx.Fits MAX_SIZE) :
    Reads (readTxBody true) ([0, 1] ++ (lengthPrefixed serTxIn tx.vin ++
      lengthPrefixed serTxOut tx.vout)) (1, tx.vin.map CTxIn.stripped, tx.vout) := by
  have hdummy : Reads (readVector MAX_SIZE readTxIn) [0] [] :=
    @reads_readInputs [] (by simp) (by simp)
  have hflags : Reads readUInt8 [1] 1 := reads_readUInt8 1
  refine hdummy.andThen (hflags.andThen ?_)
  rw [if_neg (by decide)]
  exact (reads_readInputs hfits.vin hfits.scriptSig).andThen
    ((reads_readOutputs hfits.vout hfits.scriptPubKey).map _)

theorem reads_readTxWitness (hwitness : tx.hasWitness = true) (hfits : tx.Fits MAX_SIZE) :
    Reads (readTxWitness true 1 (tx.vin.map CTxIn.stripped))
      (tx.vin.flatMap fun input => serWitness input.scriptWitness) (0, tx.vin) := by
  have hstacks := reads_readWitnesses hfits.witness
  have hany : (tx.vin.any fun input => !input.scriptWitness.isEmpty) = true := hwitness
  unfold readTxWitness
  rw [if_pos (by decide)]
  intro rest
  rw [Reader.andThen, hstacks rest]
  dsimp only
  rw [if_pos hany]
  rfl

/-- A transaction with inputs is read back, but for the time of later versions. -/
theorem reads_unserializeTransaction (hvin : tx.vin ≠ []) (hfits : tx.Fits MAX_SIZE) :
    Reads (unserializeTransaction true) (serializeTransaction true tx) tx.received := by
  -- the last field, once the flags are used up
  have hlock : ∀ vin : List CTxIn, Reads (if (0 : UInt8) ≠ 0 then fail else
      readUInt32.andThen fun nLockTime =>
        done (⟨vin, tx.vout, tx.nVersion, tx.received.nTime, nLockTime⟩ : CTransaction))
      (serUInt32 tx.nLockTime) ⟨vin, tx.vout, tx.nVersion, tx.received.nTime, tx.nLockTime⟩ := by
    intro vin
    rw [if_neg (by simp)]
    exact (reads_readUInt32 tx.nLockTime).map _
  cases hwitness : tx.hasWitness with
  | true =>
    rw [serialize_true_eq hwitness]
    have hbytes : serTxVersion tx ++ ([0, 1] ++ (lengthPrefixed serTxIn tx.vin ++
        (lengthPrefixed serTxOut tx.vout ++
          (tx.vin.flatMap (fun input => serWitness input.scriptWitness) ++
            serUInt32 tx.nLockTime)))) =
        serTxVersion tx ++ (([0, 1] ++ (lengthPrefixed serTxIn tx.vin ++
          lengthPrefixed serTxOut tx.vout)) ++
          (tx.vin.flatMap (fun input => serWitness input.scriptWitness) ++
            serUInt32 tx.nLockTime)) := by
      simp only [List.append_assoc]
    rw [hbytes]
    exact (reads_readTxVersion tx).andThen ((reads_readTxBody_extended hfits).andThen
      ((reads_readTxWitness hwitness hfits).andThen (hlock tx.vin)))
  | false =>
    have hvin' : tx.vin.map CTxIn.stripped = tx.vin :=
      congrArg CTransaction.vin (stripped_of_not_hasWitness hwitness)
    have hnone : Reads (readTxWitness true 0 (tx.vin.map CTxIn.stripped)) [] (0, tx.vin) := by
      rw [hvin']
      exact reads_done _
    have hbytes : serializeTransaction true tx = serTxVersion tx ++
        ((lengthPrefixed serTxIn tx.vin ++ lengthPrefixed serTxOut tx.vout) ++
          ([] ++ serUInt32 tx.nLockTime)) := by
      rw [serialize_true_of_not_hasWitness hwitness, serialize_false_eq]
      simp only [List.append_assoc, List.nil_append]
    rw [hbytes]
    exact (reads_readTxVersion tx).andThen ((reads_readTxBody hvin hfits).andThen
      (hnone.andThen (hlock tx.vin)))

/-- A transaction with inputs, no vector of which is longer than `MAX_SIZE`, is read back
but for the time of later versions; and the encoding of a transaction with inputs
determines it but for that time. -/
theorem transaction_round_trip : (∀ tx : CTransaction, tx.vin ≠ [] → tx.Fits MAX_SIZE →
      Reads (unserializeTransaction true) (serializeTransaction true tx) tx.received) ∧
    ∀ tx tx' : CTransaction, tx.vin ≠ [] → tx'.vin ≠ [] →
      tx.Fits (2 ^ 64 - 1) → tx'.Fits (2 ^ 64 - 1) →
      serializeTransaction true tx = serializeTransaction true tx' →
        tx.received = tx'.received := by
  refine ⟨fun tx => reads_unserializeTransaction, ?_⟩
  intro tx tx' hvin hvin' hfits hfits' heq
  exact received_eq_of_serialize_true_eq (by omega) hfits hfits' hvin hvin' heq

/-- One input, one output and a time that is not written. -/
def plainTx : CTransaction := ⟨[⟨COutPoint.null, ⟨[]⟩, 0, []⟩], [⟨1, ⟨[]⟩⟩], 3, 5, 0⟩

theorem plainTx_round_trip : Reads (unserializeTransaction true) (serializeTransaction true plainTx)
        { plainTx with nTime := 0 } ∧
      plainTx.received = { plainTx with nTime := 6 }.received := by
  have hfits (nTime : UInt32) (limit : ℕ) (h : 1 ≤ limit) :
      ({ plainTx with nTime } : CTransaction).Fits limit :=
    ⟨h, by simp [plainTx, CScript.size], h, by simp [plainTx, CScript.size], by simp [plainTx]⟩
  constructor
  · exact transaction_round_trip.1 plainTx (by decide) (hfits 5 MAX_SIZE (by decide))
  · exact transaction_round_trip.2 plainTx { plainTx with nTime := 6 } (by decide) (by decide)
      (hfits 5 _ (by omega)) (hfits 6 _ (by omega)) (by decide +kernel)

/-- Inputs that are too many are written but not read. -/
theorem unserializeTransaction_eq_none (hwitness : tx.hasWitness = false)
    (hlength : MAX_SIZE < tx.vin.length) (hsmall : tx.vin.length < 2 ^ 64) :
    unserializeTransaction true (serializeTransaction true tx) = none := by
  rw [serialize_true_of_not_hasWitness hwitness, serialize_false_eq, unserializeTransaction,
    Reader.andThen, reads_readTxVersion tx]
  dsimp only
  rw [readTxBody, Reader.andThen, Reader.andThen, readVector, Reader.andThen, lengthPrefixed,
    List.append_assoc, readCompactSize_eq_none hsmall hlength]

/-- The announcement of the extended format is also how a transaction without inputs and
with one output starts. -/
def ambiguousTx : CTransaction :=
  ⟨[⟨⟨0x25 <<< 56, 0⟩, ⟨[]⟩, 0, [[1]]⟩], [], 3, 0, 0⟩

/-- Vectors that are too long are written and not read; and without inputs two transactions
can have one encoding. -/
theorem transaction_not_read_back : (∃ tx : CTransaction, tx.vin ≠ [] ∧
      unserializeTransaction true (serializeTransaction true tx) = none) ∧
    ∃ tx : CTransaction, tx.vin = [] ∧ ambiguousTx.vin ≠ [] ∧
      serializeTransaction true tx = serializeTransaction true ambiguousTx := by
  constructor
  · obtain ⟨vin, hlength, hinput⟩ : ∃ vin : List CTxIn, vin.length = MAX_SIZE + 1 ∧
        ∀ input ∈ vin, input = ⟨COutPoint.null, ⟨[]⟩, 0, []⟩ :=
      ⟨List.replicate _ _, List.length_replicate, fun _ => List.eq_of_mem_replicate⟩
    refine ⟨⟨vin, [], 3, 0, 0⟩, ?_, unserializeTransaction_eq_none ?_ ?_ ?_⟩
    · rintro rfl
      cases hlength
    · refine List.any_eq_false.mpr fun input hmem => ?_
      rw [hinput input hmem]
      decide
    · show _ < vin.length
      omega
    · show vin.length < _
      rw [hlength, MAX_SIZE]
      omega
  · exact ⟨⟨[], [⟨1, ⟨List.replicate 34 0 ++ [1, 1, 1]⟩⟩], 3, 0, 0⟩, rfl, by decide,
      by decide +kernel⟩

/-- The time of later versions is not hashed. -/
theorem getHash_received (hash256 : List UInt8 → Uint256) (tx : CTransaction) :
    tx.received.getHash hash256 = tx.getHash hash256 := by
  have hversion : serTxVersion tx.received = serTxVersion tx := by
    unfold serTxVersion received
    split <;> rfl
  unfold getHash
  rw [serialize_false_eq, serialize_false_eq, hversion]
  rfl

end CTransaction

/-! ## Blocks that are read back -/

/-- The transactions of the block have inputs, and the block is small enough to be sent.
`CheckTransaction` and `ContextualCheckBlock` test both. -/
structure CBlock.Sendable (block : CBlock) : Prop where
  vin : ∀ tx ∈ block.vtx, tx.vin ≠ []
  size : blockSize block ≤ MAX_SIZE

theorem reads_readMarkedHeader (header : CBlockHeader) :
    Reads readMarkedHeader (serHeader header ++ serUInt32 header.nFlags) header := by
  have hbytes : serHeader header ++ serUInt32 header.nFlags =
      serInt32 header.nVersion ++ (header.hashPrevBlock.toBytes ++
        (header.hashMerkleRoot.toBytes ++ (serUInt32 header.nTime ++ (serUInt32 header.nBits ++
          (serUInt32 header.nNonce ++ serUInt32 header.nFlags))))) := by
    simp only [serHeader, List.append_assoc]
  rw [hbytes]
  exact (reads_readInt32 _).andThen ((reads_readUint256 _).andThen ((reads_readUint256 _).andThen
    ((reads_readUInt32 _).andThen ((reads_readUInt32 _).andThen ((reads_readUInt32 _).andThen
      ((reads_readUInt32 _).map _))))))

theorem reads_readTransactions {block : CBlock} (h : block.Sendable) :
    Reads (readVector MAX_SIZE (unserializeTransaction true))
      (lengthPrefixed (serializeTransaction true) block.vtx)
      (block.vtx.map CTransaction.received) := by
  have htotal : (lengthPrefixed (serializeTransaction true) block.vtx).length ≤ MAX_SIZE := by
    have hsize := h.size
    simp only [blockSize, serBlock, List.length_append] at hsize
    omega
  have hpos : ∀ tx : CTransaction, 0 < (serializeTransaction true tx).length := by
    intro tx
    simp only [serializeTransaction, serTxVersion, serInt32, List.length_append, length_leBytes]
    omega
  have hcount : block.vtx.length ≤ MAX_SIZE :=
    (length_le_lengthPrefixed hpos block.vtx).trans htotal
  have hsmall : ∀ tx ∈ block.vtx, txSize tx ≤ MAX_SIZE := fun tx htx =>
    (length_le_lengthPrefixed_of_mem htx).trans htotal
  exact reads_readVector_map (by rw [MAX_SIZE] at hcount; omega) hcount fun tx htx =>
    CTransaction.reads_unserializeTransaction (h.vin tx htx)
      (CTransaction.fits_of_txSize_le (hsmall tx htx))

/-- A block that is read has the transactions of the one that was sent, as they are read. -/
theorem vtx_of_readBlock {block received : CBlock} {rest : List UInt8} (h : block.Sendable)
    (hread : readBlock (serSentBlock block) = some (received, rest)) :
    received.vtx = block.vtx.map CTransaction.received := by
  have hheader := reads_readMarkedHeader block.toCBlockHeader
  have hvtx := reads_readTransactions h
  unfold readBlock serSentBlock at hread
  rw [Reader.andThen, hheader] at hread
  dsimp only at hread
  rw [Reader.andThen, hvtx] at hread
  -- the signature and the claims come after the transactions
  obtain ⟨vchBlockSig, after, -, hread⟩ := andThen_eq_some_iff.mp hread
  obtain ⟨vClaim, last, -, hread⟩ := andThen_eq_some_iff.mp hread
  obtain ⟨rfl, -⟩ := Prod.mk.inj (Option.some.inj hread)
  rfl

end Patchcoin
