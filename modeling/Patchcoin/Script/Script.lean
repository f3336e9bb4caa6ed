import Mathlib.Tactic

/-!
# Scripts

Scripts are byte strings.  The node orders them by length first and by content
second, because `prevector::operator<` compares sizes before bytes; the claim
map is kept in that order.  The byte string is read as a sequence of
operations by `getScriptOp`, and every loop over a script is a walk over the
operations it yields.
-/

namespace Patchcoin

/-- A script (`CScript`), as the bytes it is serialized to. -/
structure CScript where
  bytes : List UInt8
  deriving DecidableEq, Repr, Inhabited

namespace CScript

/-- `prevector::operator<`: size first, then content. -/
instance : Ord CScript :=
  ⟨compareLex (compareOn fun script => script.bytes.length) (compareOn CScript.bytes)⟩

instance : Std.TransOrd CScript :=
  inferInstanceAs (Std.TransCmp
    (compareLex (compareOn fun script : CScript => script.bytes.length)
      (compareOn CScript.bytes)))

instance : Std.LawfulEqOrd CScript where
  eq_of_compare {a b} h := by
    have hboth : (compare a.bytes.length b.bytes.length).then (compare a.bytes b.bytes) = .eq := h
    have hbytes : a.bytes = b.bytes :=
      Std.LawfulEqCmp.eq_of_compare (Ordering.then_eq_eq.mp hboth).2
    cases a
    cases b
    exact congrArg CScript.mk hbytes

def size (script : CScript) : ℕ := script.bytes.length

def empty (script : CScript) : Bool := script.bytes.isEmpty

end CScript

/-! ## Opcodes -/

def OP_0 : UInt8 := 0x00
def OP_PUSHDATA1 : UInt8 := 0x4c
def OP_PUSHDATA2 : UInt8 := 0x4d
def OP_PUSHDATA4 : UInt8 := 0x4e
def OP_1 : UInt8 := 0x51
def OP_16 : UInt8 := 0x60
def OP_RETURN : UInt8 := 0x6a
def OP_DUP : UInt8 := 0x76
def OP_EQUAL : UInt8 := 0x87
def OP_EQUALVERIFY : UInt8 := 0x88
def OP_HASH160 : UInt8 := 0xa9
def OP_CHECKSIG : UInt8 := 0xac
def OP_CHECKSIGVERIFY : UInt8 := 0xad
def OP_CHECKMULTISIG : UInt8 := 0xae
def OP_CHECKMULTISIGVERIFY : UInt8 := 0xaf
def OP_INVALIDOPCODE : UInt8 := 0xff

def MAX_PUBKEYS_PER_MULTISIG : ℕ := 20
def MAX_SCRIPT_SIZE : ℕ := 10000

/-! ## Reading bytes -/

/-- The number that a little-endian byte string stands for. -/
def ofLeBytes : List UInt8 → ℕ
  | [] => 0
  | byte :: rest => byte.toNat + 256 * ofLeBytes rest

/-- `ReadLE16`, `ReadLE32` and the one-byte read, with the bounds test that
precedes them. -/
def readLE (width : ℕ) (pc : List UInt8) : Option (ℕ × List UInt8) :=
  if pc.length < width then none else some (ofLeBytes (pc.take width), pc.drop width)

/-- `GetScriptOp`: the next opcode, the data it pushes and the bytes after it. -/
def getScriptOp : List UInt8 → Option (UInt8 × List UInt8 × List UInt8)
  | [] => none
  | opcode :: pc =>
    if opcode ≤ OP_PUSHDATA4 then
      let immediate := if opcode < OP_PUSHDATA1 then some (opcode.toNat, pc)
        else if opcode = OP_PUSHDATA1 then readLE 1 pc
        else if opcode = OP_PUSHDATA2 then readLE 2 pc
        else readLE 4 pc
      match immediate with
      | none => none
      | some (nSize, pc) =>
        if pc.length < nSize then none else some (opcode, pc.take nSize, pc.drop nSize)
    else some (opcode, [], pc)

theorem getScriptOp_opcode {bytes : List UInt8} {opcode first : UInt8} {data next : List UInt8}
    (h : getScriptOp (first :: bytes) = some (opcode, data, next)) : opcode = first := by
  rw [getScriptOp] at h
  split at h
  · generalize (if first < OP_PUSHDATA1 then some (first.toNat, bytes)
      else if first = OP_PUSHDATA1 then readLE 1 bytes
      else if first = OP_PUSHDATA2 then readLE 2 bytes else readLE 4 bytes) = immediate at h
    cases immediate with
    | none => cases h
    | some pushed =>
      dsimp only at h
      split_ifs at h
      exact (congrArg Prod.fst (Option.some.inj h)).symm
  · exact (congrArg Prod.fst (Option.some.inj h)).symm

/-- The operations from `pc` on, and whether the script could be read to its
end.  Every operation takes at least one byte, so the length is enough fuel. -/
def scriptOps : ℕ → List UInt8 → List (UInt8 × List UInt8) × Bool
  | 0, pc => ([], pc.isEmpty)
  | fuel + 1, pc =>
    if pc.isEmpty then ([], true)
    else match getScriptOp pc with
      | none => ([], false)
      | some (opcode, data, next) =>
        let tail := scriptOps fuel next
        ((opcode, data) :: tail.1, tail.2)

namespace CScript

/-- All operations of a script. -/
def ops (script : CScript) : List (UInt8 × List UInt8) × Bool :=
  scriptOps script.bytes.length script.bytes

/-- `CScript::DecodeOP_N`, for an opcode in its range. -/
def decodeOP_N (opcode : UInt8) : ℕ :=
  if opcode = OP_0 then 0 else opcode.toNat - (OP_1.toNat - 1)

/-- `CScript::EncodeOP_N`, for a number in its range. -/
def encodeOP_N (n : ℕ) : UInt8 :=
  if n = 0 then OP_0 else OP_1 + UInt8.ofNat (n - 1)

/-- The loop of `CScript::GetSigOpCount(bool)`. -/
def sigOpLoop (fAccurate : Bool) : List (UInt8 × List UInt8) → UInt8 → ℕ → ℕ
  | [], _, n => n
  | (opcode, _) :: rest, lastOpcode, n =>
    let n := if opcode = OP_CHECKSIG ∨ opcode = OP_CHECKSIGVERIFY then n + 1
      else if opcode = OP_CHECKMULTISIG ∨ opcode = OP_CHECKMULTISIGVERIFY then
        if fAccurate = true ∧ OP_1 ≤ lastOpcode ∧ lastOpcode ≤ OP_16 then
          n + decodeOP_N lastOpcode
        else n + MAX_PUBKEYS_PER_MULTISIG
      else n
    sigOpLoop fAccurate rest opcode n

/-- `CScript::GetSigOpCount(bool)`: operations up to the first unreadable one count. -/
def getSigOpCount (script : CScript) (fAccurate : Bool) : ℕ :=
  sigOpLoop fAccurate script.ops.1 OP_INVALIDOPCODE 0

def isPayToScriptHash (script : CScript) : Bool :=
  script.size == 23 && script.bytes.getD 0 0 == OP_HASH160 && script.bytes.getD 1 0 == 0x14 &&
    script.bytes.getD 22 0 == OP_EQUAL

/-- `CScript::GetSigOpCount(const CScript&)`: for a pay-to-script-hash output the
operations of the script that `scriptSig` pushes last are counted. -/
def getSigOpCountP2SH (script scriptSig : CScript) : ℕ :=
  if !script.isPayToScriptHash then script.getSigOpCount true
  else
    let (items, complete) := scriptSig.ops
    if !complete || items.any (fun item => decide (OP_16 < item.1)) then 0
    else (CScript.mk ((items.getLast?.map Prod.snd).getD [])).getSigOpCount true

/-- `CScript::IsWitnessProgram`: the version and the program. -/
def isWitnessProgram (script : CScript) : Option (ℕ × List UInt8) :=
  let first := script.bytes.getD 0 0
  if script.size < 4 ∨ 42 < script.size then none
  else if first ≠ OP_0 ∧ (first < OP_1 ∨ OP_16 < first) then none
  else if (script.bytes.getD 1 0).toNat + 2 = script.size then
    some (decodeOP_N first, script.bytes.drop 2)
  else none

/-- `CScript::IsPushOnly`, from the given position on. -/
def isPushOnlyFrom (pc : List UInt8) : Bool :=
  let (items, complete) := scriptOps pc.length pc
  complete && items.all fun item => decide (item.1 ≤ OP_16)

/-- `CScript::IsUnspendable`: such an output never enters the coin database. -/
def isUnspendable (script : CScript) : Bool :=
  (script.bytes.head? == some OP_RETURN) || decide (MAX_SCRIPT_SIZE < script.size)

/-- `CScript::operator<<` for a byte string: the push with the shortest length field. -/
def pushData (script : CScript) (data : List UInt8) : CScript :=
  let length := data.length
  let header := if length < OP_PUSHDATA1.toNat then [UInt8.ofNat length]
    else if length ≤ 0xff then [OP_PUSHDATA1, UInt8.ofNat length]
    else if length ≤ 0xffff then
      [OP_PUSHDATA2, UInt8.ofNat (length % 256), UInt8.ofNat (length / 256 % 256)]
    else
      [OP_PUSHDATA4, UInt8.ofNat (length % 256), UInt8.ofNat (length / 256 % 256),
        UInt8.ofNat (length / 65536 % 256), UInt8.ofNat (length / 16777216 % 256)]
  ⟨script.bytes ++ header ++ data⟩

/-- `CScript::operator<<` for an opcode. -/
def pushOp (script : CScript) (opcode : UInt8) : CScript := ⟨script.bytes ++ [opcode]⟩

end CScript

/-! ## Numbers in scripts -/

/-- `CScriptNum::serialize` of a positive number. -/
def scriptNumBytes : ℕ → ℕ → List UInt8
  | 0, _ => []
  | _, 0 => []
  | fuel + 1, n =>
    if n < 256 then
      if 128 ≤ n then [UInt8.ofNat n, 0] else [UInt8.ofNat n]
    else UInt8.ofNat (n % 256) :: scriptNumBytes fuel (n / 256)

/-- `CScript::push_int64` of a non-negative number: small ones are opcodes. -/
def CScript.pushInt64 (script : CScript) (n : ℕ) : CScript :=
  if 1 ≤ n ∧ n ≤ 16 then script.pushOp (OP_1 + UInt8.ofNat (n - 1))
  else if n = 0 then script.pushOp OP_0
  else script.pushData (scriptNumBytes 9 n)

/-- `CScriptNum(data, fRequireMinimal = true)`: `none` where it throws. -/
def scriptNum (vch : List UInt8) : Option ℤ :=
  let last := vch.getLastD 0
  if 4 < vch.length then none
  else if vch ≠ [] ∧ last &&& 0x7f = 0 ∧
      (vch.length ≤ 1 ∨ vch.getD (vch.length - 2) 0 &&& 0x80 = 0) then none
  else if last &&& 0x80 ≠ 0 then
    some (-((ofLeBytes vch - 0x80 * 256 ^ (vch.length - 1) : ℕ) : ℤ))
  else some (ofLeBytes vch)

end Patchcoin
