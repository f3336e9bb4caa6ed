import Patchcoin.Consensus.Params

/-!
# The environment of a node

What the modelled code reads but does not compute: the cryptography, the
address formats, the Peercoin snapshot, the options of the node and the
services it asks.  Everything here is an arbitrary parameter of the model, so
a theorem holds whatever these functions are, unless it says otherwise.
-/

namespace Patchcoin

/-- An unspent output with the data the chain keeps about it (`Coin`). -/
structure Coin where
  out : CTxOut
  fCoinBase : Bool
  fCoinStake : Bool
  nHeight : ℕ
  nTime : UInt32
  deriving DecidableEq, Repr

/-- The Peercoin snapshot (`SnapshotManager`). -/
structure Snapshot where
  /-- `m_valid_scripts`: scripts that can sign a message, with their balance. -/
  scriptPubKeys : Std.ExtTreeMap CScript ℤ compare
  /-- `m_incompatible_scripts`: the other scripts, with their outputs. -/
  incompatibleScriptPubKeys : Std.ExtTreeMap CScript (List (COutPoint × Coin)) compare
  /-- `m_hash_scripts`. -/
  hashScripts : Uint256

/-- Cryptography and text formats. -/
structure Host where
  /-- `CHash256`: double SHA-256. -/
  hash256 : List UInt8 → Uint256
  /-- `Hash160`. -/
  hash160 : List UInt8 → Uint160
  /-- `CPubKey::Verify`: key, message hash, signature. -/
  verify : List UInt8 → Uint256 → List UInt8 → Bool
  encodeDestination : CTxDestination → String
  encodeDestination_BTC : CTxDestination → String
  decodeDestination : String → CTxDestination
  decodeDestination_BTC : String → CTxDestination
  encodeBase64 : List UInt8 → String
  encodeHexTx : CTransaction → String
  /-- `MessageVerify` with the Peercoin magic: address, signature, message. -/
  messageVerify : String → String → String → Bool
  /-- `VerifyScript` for one input of a transaction and the output it spends, with
  the standard flags. -/
  verifyDummyScript : CTransaction → CTxOut → Bool
  /-- `CheckInputScripts` for script flags, a transaction and the outputs it spends. -/
  checkInputScripts : UInt32 → CTransaction → List CTxOut → Except TxFail Unit
  /-- `CountWitnessSigOps` of one input. -/
  countWitnessSigOps : UInt32 → CTxIn → CTxOut → ℕ
  /-- `CheckSignetBlockSolution`, which reads the header and the transactions. -/
  checkSignetBlockSolution : CBlockHeader → List CTransaction → Bool
  /-- The block header and the transaction that the transaction index finds. -/
  txindex : Uint256 → Option (CBlockHeader × CTransaction)

/-- What the operator of a node chooses, and the service it then asks. -/
structure Options where
  /-- `genesis_key_held` -/
  genesis_key_held : Bool
  /-- `BitcoinAddressLookup`: the balance of an address, if the lookup is enabled. -/
  lookup : Option (String → ℤ)
  /-- `ElectrumInterface::VerifyMessage`: address, signature, message; an exception
  counts as a failure. -/
  electrumVerify : String → String → String → Bool

structure Env where
  params : Params
  snapshot : Snapshot
  host : Host
  options : Options

namespace Env

variable (env : Env)

def isLookupEnabled : Bool := env.options.lookup.isSome

/-- `Claim::GetAddressFromScript`: empty if there is no destination. -/
def getAddressFromScript (script : CScript) : String :=
  match extractDestination env.host.hash160 script with
  | some dest => if isValidDestination dest then env.host.encodeDestination dest else ""
  | none => ""

/-- `Claim::GetBtcAddressFromScript`. -/
def getBtcAddressFromScript (script : CScript) : String :=
  match extractDestination env.host.hash160 script with
  | some dest => if isValidDestination dest then env.host.encodeDestination_BTC dest else ""
  | none => ""

/-- `Claim::GetScriptFromAddress`: empty if the address is not valid. -/
def getScriptFromAddress (address : String) : CScript :=
  let dest := env.host.decodeDestination address
  if isValidDestination dest then getScriptForDestination dest else ⟨[]⟩

/-- `Claim::GetScriptFromBtcAddress`. -/
def getScriptFromBtcAddress (address : String) : CScript :=
  let dest := env.host.decodeDestination_BTC address
  if isValidDestination dest then getScriptForDestination dest else ⟨[]⟩

end Env

end Patchcoin
