import Patchcoin.Primitives.Transaction
import Patchcoin.Lib.MerkleTree

/-!
# Blocks and the claims they carry

A block is a header, its transactions, the signature of the staker and the
list of claims that its payouts refer to.  The header commits to the
transactions through the Merkle root and, through the coinbase, to their
witness data; `vchBlockSig` and `vClaim` come after them in the stream.

The three flags at the end are memory only.  They are `mutable` in the source
and remember that a check has passed on this very object.
-/

namespace Patchcoin

open PrefixCode

/-- A claim as it is written to blocks and messages (`CClaim`). -/
structure CClaim where
  nVersion : Int32 := 1
  source : CScript
  target : CScript
  signature : List UInt8
  dummyTx : CTransaction
  deriving DecidableEq, Repr

structure CBlockHeader where
  nVersion : Int32
  hashPrevBlock : Uint256
  hashMerkleRoot : Uint256
  nTime : UInt32
  nBits : UInt32
  nNonce : UInt32
  /-- Neither hashed nor stored with a block. -/
  nFlags : UInt32 := 0
  deriving DecidableEq, Repr

structure CBlock extends CBlockHeader where
  vtx : List CTransaction
  vchBlockSig : List UInt8
  vClaim : List CClaim
  fChecked : Bool := false
  m_checked_witness_commitment : Bool := false
  m_checked_merkle_root : Bool := false
  deriving DecidableEq, Repr

/-! ## Serialization -/

def serClaim (claim : CClaim) : List UInt8 :=
  serInt32 claim.nVersion ++ (serScript claim.source ++ (serScript claim.target ++
    (serBytes claim.signature ++ serializeTransaction true claim.dummyTx)))

/-- The header without `nFlags`: what is hashed, and what a block on the network
or on disk starts with. -/
def serHeader (header : CBlockHeader) : List UInt8 :=
  serInt32 header.nVersion ++ (header.hashPrevBlock.toBytes ++ (header.hashMerkleRoot.toBytes ++
    (serUInt32 header.nTime ++ (serUInt32 header.nBits ++ serUInt32 header.nNonce))))

def serBlock (block : CBlock) : List UInt8 :=
  serHeader block.toCBlockHeader ++ (lengthPrefixed (serializeTransaction true) block.vtx ++
    (serBytes block.vchBlockSig ++ lengthPrefixed serClaim block.vClaim))

/-- `GetSerializeSize` of a block, which counts the witnesses as `txSize` does. -/
def blockSize (block : CBlock) : ℕ := (serBlock block).length

def getBlockWeight (block : CBlock) : ℕ :=
  blockSize block * (WITNESS_SCALE_FACTOR - 1) + blockSize block

/-! ## Merkle roots -/

section Merkle

variable (hash256 : List UInt8 → Uint256)

/-- `SHA256D64` on two neighbours. -/
def hashPair (left right : Uint256) : Uint256 := hash256 (left.toBytes ++ right.toBytes)

/-- `ComputeMerkleRoot`: the root and the `mutated` flag. -/
def computeMerkleRoot (hashes : List Uint256) : Uint256 × Bool :=
  let (rest, mutation) := MerkleTree.foldLevels (hashPair hash256) hashes.length hashes false
  (rest.headD 0, mutation)

def blockMerkleRoot (block : CBlock) : Uint256 × Bool :=
  computeMerkleRoot hash256 (block.vtx.map (CTransaction.getHash hash256))

/-- The witness hash of the coinbase counts as zero. -/
def blockWitnessMerkleRoot (block : CBlock) : Uint256 × Bool :=
  computeMerkleRoot hash256
    (0 :: (block.vtx.drop 1).map (CTransaction.getWitnessHash hash256))

def CBlockHeader.getHash (header : CBlockHeader) : Uint256 := hash256 (serHeader header)

def CBlock.getHash (block : CBlock) : Uint256 := block.toCBlockHeader.getHash hash256

end Merkle

namespace CBlock

/-- `CBlock(header)`: a new object, with no check remembered. -/
def ofHeader (header : CBlockHeader) : CBlock :=
  { header with vtx := [], vchBlockSig := [], vClaim := [] }

def isProofOfStake (block : CBlock) : Bool :=
  match block.vtx with
  | _ :: second :: _ => second.isCoinStake
  | _ => false

def isProofOfWork (block : CBlock) : Bool := !block.isProofOfStake

/-- `CBlock::GetProofOfStake`: the staked outpoint and the time of the coinstake. -/
def getProofOfStake (block : CBlock) : COutPoint × UInt32 :=
  match block.vtx with
  | _ :: second :: _ =>
    if second.isCoinStake then
      match second.vin with
      | input :: _ => (input.prevout, second.nTime)
      | [] => (COutPoint.null, 0)
    else (COutPoint.null, 0)
  | _ => (COutPoint.null, 0)

/-- No check has run on this object yet. -/
structure Fresh (block : CBlock) : Prop where
  fChecked : block.fChecked = false
  m_checked_witness_commitment : block.m_checked_witness_commitment = false
  m_checked_merkle_root : block.m_checked_merkle_root = false

end CBlock

/-! ## The witness commitment -/

def MINIMUM_WITNESS_COMMITMENT : ℕ := 38

def isWitnessCommitment (out : CTxOut) : Bool :=
  decide (MINIMUM_WITNESS_COMMITMENT ≤ out.scriptPubKey.size) &&
    out.scriptPubKey.bytes.take 6 == [OP_RETURN, 0x24, 0xaa, 0x21, 0xa9, 0xed]

/-- The last output of the coinbase that is a commitment
(`GetWitnessCommitmentIndex`, as the output it points to). -/
def getWitnessCommitment (block : CBlock) : Option CTxOut :=
  match block.vtx with
  | [] => none
  | coinbase :: _ => coinbase.vout.reverse.find? isWitnessCommitment

end Patchcoin
