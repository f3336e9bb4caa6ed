import Patchcoin.Script.Script
import Patchcoin.Lib.PrefixCode

/-!
# Standard output scripts

`Solver` recognises the templates of output scripts, `extractDestination` reads
the destination behind a template and `getScriptForDestination` writes the
script of a destination.  The two are not inverse to each other: an output to a
public key and an output to the hash of that key have one destination, and the
script written for it is always the second one.
-/

namespace Patchcoin

abbrev Uint160 := BitVec 160
abbrev Uint256 := BitVec 256

/-- A hash value from the bytes of a script or a stream. -/
def uint160 (bytes : List UInt8) : Uint160 := BitVec.ofNat 160 (ofLeBytes bytes)

def uint256 (bytes : List UInt8) : Uint256 := BitVec.ofNat 256 (ofLeBytes bytes)

def Uint160.toBytes (hash : Uint160) : List UInt8 := PrefixCode.leBytes 20 hash.toNat

def Uint256.toBytes (hash : Uint256) : List UInt8 := PrefixCode.leBytes 32 hash.toNat

/-! ## Public keys -/

namespace CPubKey

def SIZE : ℕ := 65
def COMPRESSED_SIZE : ℕ := 33

/-- `CPubKey::GetLen`: the length that the first byte of a key announces. -/
def getLen (chHeader : UInt8) : ℕ :=
  if chHeader = 2 ∨ chHeader = 3 then COMPRESSED_SIZE
  else if chHeader = 4 ∨ chHeader = 6 ∨ chHeader = 7 then SIZE
  else 0

def validSize (vch : List UInt8) : Bool :=
  decide (0 < vch.length) && decide (getLen (vch.getD 0 0) = vch.length)

/-- `CPubKey::IsValid` of the key that is set from the given bytes. -/
def isValid (vch : List UInt8) : Bool := validSize vch

end CPubKey

/-! ## Templates -/

inductive TxoutType where
  | NONSTANDARD
  | PUBKEY
  | PUBKEYHASH
  | SCRIPTHASH
  | MULTISIG
  | NULL_DATA
  | WITNESS_V0_KEYHASH
  | WITNESS_V0_SCRIPTHASH
  | WITNESS_V1_TAPROOT
  | WITNESS_UNKNOWN
  deriving DecidableEq, Repr

def matchPayToPubkeySized (script : CScript) (length : ℕ) : Option (List UInt8) :=
  if script.size = length + 2 ∧ script.bytes.getD 0 0 = UInt8.ofNat length ∧
      script.bytes.getLastD 0 = OP_CHECKSIG then
    some ((script.bytes.drop 1).take length)
  else none

/-- `MatchPayToPubkey`: the key pushed by the script, if its size is right. -/
def matchPayToPubkey (script : CScript) : Option (List UInt8) :=
  match matchPayToPubkeySized script CPubKey.SIZE with
  | some pubkey => if CPubKey.validSize pubkey then some pubkey else none
  | none =>
    match matchPayToPubkeySized script CPubKey.COMPRESSED_SIZE with
    | some pubkey => if CPubKey.validSize pubkey then some pubkey else none
    | none => none

def matchPayToPubkeyHash (script : CScript) : Option (List UInt8) :=
  if script.size = 25 ∧ script.bytes.getD 0 0 = OP_DUP ∧ script.bytes.getD 1 0 = OP_HASH160 ∧
      script.bytes.getD 2 0 = 20 ∧ script.bytes.getD 23 0 = OP_EQUALVERIFY ∧
      script.bytes.getD 24 0 = OP_CHECKSIG then
    some ((script.bytes.drop 3).take 20)
  else none

/-- `CheckMinimalPush`, for an opcode up to `OP_PUSHDATA4`. -/
def checkMinimalPush (data : List UInt8) (opcode : UInt8) : Bool :=
  let first := data.getD 0 0
  if data.length = 0 then opcode == OP_0
  else if data.length = 1 ∧ 1 ≤ first ∧ first ≤ 16 then false
  else if data.length = 1 ∧ first = 0x81 then false
  else if data.length ≤ 75 then decide (opcode.toNat = data.length)
  else if data.length ≤ 255 then opcode == OP_PUSHDATA1
  else if data.length ≤ 65535 then opcode == OP_PUSHDATA2
  else true

/-- `GetScriptNumber`: a small number, written as an opcode or as a minimal push. -/
def getScriptNumber (opcode : UInt8) (data : List UInt8) (min max : ℤ) : Option ℤ :=
  let count : Option ℤ := if OP_1 ≤ opcode ∧ opcode ≤ OP_16 then some (CScript.decodeOP_N opcode)
    else if opcode ≤ OP_PUSHDATA4 then
      if checkMinimalPush data opcode then scriptNum data else none
    else none
  match count with
  | none => none
  | some count => if count < min ∨ max < count then none else some count

/-- The key loop of `MatchMultisig`: the keys, the operation that ended the loop
and the bytes after it. -/
def multisigKeys : ℕ → List UInt8 → List (List UInt8) → UInt8 → List UInt8 →
    List (List UInt8) × UInt8 × List UInt8 × List UInt8
  | 0, it, pubkeys, opcode, data => (pubkeys, opcode, data, it)
  | fuel + 1, it, pubkeys, _, _ =>
    match getScriptOp it with
    | none => (pubkeys, OP_INVALIDOPCODE, [], it)
    | some (opcode, data, next) =>
      if CPubKey.validSize data then multisigKeys fuel next (pubkeys ++ [data]) opcode data
      else (pubkeys, opcode, data, next)

/-- `MatchMultisig`: the number of required signatures and the keys. -/
def matchMultisig (script : CScript) : Option (ℤ × List (List UInt8)) :=
  if script.size < 1 ∨ script.bytes.getLastD 0 ≠ OP_CHECKMULTISIG then none
  else match getScriptOp script.bytes with
    | none => none
    | some (opcode, data, it) =>
      match getScriptNumber opcode data 1 MAX_PUBKEYS_PER_MULTISIG with
      | none => none
      | some required_sigs =>
        let (pubkeys, opcode, data, it) := multisigKeys script.size it [] opcode data
        match getScriptNumber opcode data required_sigs MAX_PUBKEYS_PER_MULTISIG with
        | none => none
        | some num_keys =>
          if (pubkeys.length : ℤ) ≠ num_keys then none
          else if it.length = 1 then some (required_sigs, pubkeys) else none

/-- `Solver`: the template of an output script and the data in it. -/
def solver (scriptPubKey : CScript) : TxoutType × List (List UInt8) :=
  if scriptPubKey.isPayToScriptHash then
    (.SCRIPTHASH, [(scriptPubKey.bytes.drop 2).take 20])
  else match scriptPubKey.isWitnessProgram with
    | some (witnessversion, witnessprogram) =>
      if witnessversion = 0 ∧ witnessprogram.length = 20 then
        (.WITNESS_V0_KEYHASH, [witnessprogram])
      else if witnessversion = 0 ∧ witnessprogram.length = 32 then
        (.WITNESS_V0_SCRIPTHASH, [witnessprogram])
      else if witnessversion = 1 ∧ witnessprogram.length = 32 then
        (.WITNESS_V1_TAPROOT, [witnessprogram])
      else if witnessversion ≠ 0 then
        (.WITNESS_UNKNOWN, [[UInt8.ofNat witnessversion], witnessprogram])
      else (.NONSTANDARD, [])
    | none =>
      if 1 ≤ scriptPubKey.size ∧ scriptPubKey.bytes.getD 0 0 = OP_RETURN ∧
          CScript.isPushOnlyFrom (scriptPubKey.bytes.drop 1) = true then (.NULL_DATA, [])
      else match matchPayToPubkey scriptPubKey with
        | some data => (.PUBKEY, [data])
        | none => match matchPayToPubkeyHash scriptPubKey with
          | some data => (.PUBKEYHASH, [data])
          | none => match matchMultisig scriptPubKey with
            | some (required, keys) =>
              (.MULTISIG,
                [[UInt8.ofNat required.toNat]] ++ keys ++ [[UInt8.ofNat keys.length]])
            | none => (.NONSTANDARD, [])

/-! ## Destinations -/

/-- `CTxDestination`. -/
inductive CTxDestination where
  | CNoDestination
  | PKHash (hash : Uint160)
  | ScriptHash (hash : Uint160)
  | WitnessV0ScriptHash (hash : Uint256)
  | WitnessV0KeyHash (hash : Uint160)
  | WitnessV1Taproot (output : Uint256)
  | WitnessUnknown (version : ℕ) (program : List UInt8)
  deriving DecidableEq, Repr

/-- `IsValidDestination`. -/
def isValidDestination : CTxDestination → Bool
  | .CNoDestination => false
  | _ => true

/-- `ExtractDestination`, with the hash that turns a key into its id. -/
def extractDestination (hash160 : List UInt8 → Uint160) (scriptPubKey : CScript) :
    Option CTxDestination :=
  match solver scriptPubKey with
  | (.PUBKEY, [pubKey]) =>
    if CPubKey.isValid pubKey then some (.PKHash (hash160 pubKey)) else none
  | (.PUBKEYHASH, [keyHash]) => some (.PKHash (uint160 keyHash))
  | (.SCRIPTHASH, [scriptHash]) => some (.ScriptHash (uint160 scriptHash))
  | (.WITNESS_V0_KEYHASH, [program]) => some (.WitnessV0KeyHash (uint160 program))
  | (.WITNESS_V0_SCRIPTHASH, [program]) => some (.WitnessV0ScriptHash (uint256 program))
  | (.WITNESS_V1_TAPROOT, [program]) => some (.WitnessV1Taproot (uint256 program))
  | (.WITNESS_UNKNOWN, [version, program]) =>
    some (.WitnessUnknown (version.getD 0 0).toNat program)
  | _ => none

/-- `GetScriptForDestination`. -/
def getScriptForDestination : CTxDestination → CScript
  | .CNoDestination => ⟨[]⟩
  | .PKHash keyID =>
    ((((CScript.mk []).pushOp OP_DUP).pushOp OP_HASH160).pushData keyID.toBytes).pushOp
      OP_EQUALVERIFY |>.pushOp OP_CHECKSIG
  | .ScriptHash scriptID =>
    (((CScript.mk []).pushOp OP_HASH160).pushData scriptID.toBytes).pushOp OP_EQUAL
  | .WitnessV0KeyHash id => ((CScript.mk []).pushOp OP_0).pushData id.toBytes
  | .WitnessV0ScriptHash id => ((CScript.mk []).pushOp OP_0).pushData id.toBytes
  | .WitnessV1Taproot tap => ((CScript.mk []).pushOp OP_1).pushData tap.toBytes
  | .WitnessUnknown version program =>
    ((CScript.mk []).pushOp (CScript.encodeOP_N version)).pushData program

end Patchcoin
