import Patchcoin.Script.Standard

/-!
# Transactions

The transaction of this chain is Bitcoin's with one more field: versions below
three carry their own time.  It is written to the stream only for those
versions, and reads back as zero for the others, so two transactions that
differ in the time of a newer version have one encoding.

The encoding without witness data is what the transaction id hashes; the
encoding with witness data is what the witness id hashes.
-/

namespace Patchcoin

open PrefixCode

/-! ## Amounts

A `CAmount` is a signed 64-bit number of units; sums of amounts are checked
against `MAX_MONEY` long before they could overflow, and are integers here. -/

def COIN : ℤ := 1000000
def CENT : ℤ := 10000
def MAX_MONEY : ℤ := 21000000 * COIN

/-- `MoneyRange`. -/
def moneyRange (nValue : ℤ) : Bool := decide (0 ≤ nValue) && decide (nValue ≤ MAX_MONEY)

@[simp] theorem moneyRange_iff (nValue : ℤ) :
    moneyRange nValue = true ↔ 0 ≤ nValue ∧ nValue ≤ MAX_MONEY := by
  simp [moneyRange]

/-! ## Inputs and outputs -/

structure COutPoint where
  hash : Uint256
  n : UInt32
  deriving DecidableEq, Repr

namespace COutPoint

def NULL_INDEX : UInt32 := 0xffffffff

def isNull (prevout : COutPoint) : Bool := prevout.hash == 0 && prevout.n == NULL_INDEX

/-- The default outpoint. -/
def null : COutPoint := ⟨0, NULL_INDEX⟩

end COutPoint

structure CTxIn where
  prevout : COutPoint
  scriptSig : CScript
  nSequence : UInt32
  /-- `CScriptWitness::stack`. -/
  scriptWitness : List (List UInt8) := []
  deriving DecidableEq, Repr

structure CTxOut where
  nValue : Int64
  scriptPubKey : CScript
  deriving DecidableEq, Repr

namespace CTxOut

def value (out : CTxOut) : ℤ := out.nValue.toInt

def isEmpty (out : CTxOut) : Bool := out.nValue == 0 && out.scriptPubKey.empty

end CTxOut

structure CTransaction where
  vin : List CTxIn
  vout : List CTxOut
  nVersion : Int32
  nTime : UInt32
  nLockTime : UInt32
  deriving DecidableEq, Repr

namespace CTransaction

variable {tx : CTransaction} {total : ℤ}

def isCoinBase (tx : CTransaction) : Bool :=
  match tx.vin with
  | [input] => input.prevout.isNull && decide (1 ≤ tx.vout.length)
  | _ => false

/-- A coinstake is marked by an empty first output. -/
def isCoinStake (tx : CTransaction) : Bool :=
  match tx.vin, tx.vout with
  | input :: _, first :: _ :: _ => !input.prevout.isNull && first.isEmpty
  | _, _ => false

theorem not_isCoinBase_of_isCoinStake (h : tx.isCoinStake = true) : tx.isCoinBase = false := by
  obtain ⟨vin, vout, nVersion, nTime, nLockTime⟩ := tx
  match vin, vout with
  | [], _ => rfl
  | _ :: _ :: _, _ => rfl
  | [input], [] => simp [isCoinStake] at h
  | [input], [_] => simp [isCoinStake] at h
  | [input], first :: _ :: _ =>
    simp only [isCoinStake, Bool.and_eq_true, Bool.not_eq_eq_eq_not, Bool.not_true] at h
    simp [isCoinBase, h.1]

def hasWitness (tx : CTransaction) : Bool := tx.vin.any fun input => !input.scriptWitness.isEmpty

/-- The loop of `GetValueOut`: `none` where it throws. -/
def valueOutLoop : List CTxOut → ℤ → Option ℤ
  | [], nValueOut => some nValueOut
  | out :: rest, nValueOut =>
    if !moneyRange out.value || !moneyRange (nValueOut + out.value) then none
    else valueOutLoop rest (nValueOut + out.value)

def getValueOut (tx : CTransaction) : Option ℤ := valueOutLoop tx.vout 0

theorem moneyRange_of_valueOutLoop {outs : List CTxOut} {nValueOut : ℤ}
    (h : valueOutLoop outs nValueOut = some total) : ∀ out ∈ outs, moneyRange out.value = true := by
  induction outs generalizing nValueOut with
  | nil => simp
  | cons out rest ih =>
    rw [valueOutLoop] at h
    split_ifs at h with hrange
    simp only [Bool.or_eq_true, Bool.not_eq_true', not_or, Bool.not_eq_false] at hrange
    intro other hother
    rcases List.mem_cons.mp hother with rfl | hmem
    · exact hrange.1
    · exact ih h other hmem

theorem moneyRange_of_getValueOut (h : tx.getValueOut = some total) :
    ∀ out ∈ tx.vout, moneyRange out.value = true :=
  moneyRange_of_valueOutLoop h

/-- The transaction without its witness data. -/
def stripped (tx : CTransaction) : CTransaction :=
  { tx with vin := tx.vin.map fun input => { input with scriptWitness := [] } }

/-- What a transaction read from the network satisfies: the time of the versions
that do not carry one is zero. -/
def OnWire (tx : CTransaction) : Prop := ¬ tx.nVersion.toInt < 3 → tx.nTime = 0

end CTransaction

/-! ## Serialization -/

def serInt32 (n : Int32) : List UInt8 := leBytes 4 n.toUInt32.toNat

def serUInt32 (n : UInt32) : List UInt8 := leBytes 4 n.toNat

def serInt64 (n : Int64) : List UInt8 := leBytes 8 n.toUInt64.toNat

/-- A byte vector or a script, with its length. -/
def serBytes (bytes : List UInt8) : List UInt8 := lengthPrefixed (fun byte => [byte]) bytes

def serScript (script : CScript) : List UInt8 := serBytes script.bytes

def serOutPoint (prevout : COutPoint) : List UInt8 := prevout.hash.toBytes ++ serUInt32 prevout.n

def serTxIn (input : CTxIn) : List UInt8 :=
  serOutPoint input.prevout ++ (serScript input.scriptSig ++ serUInt32 input.nSequence)

def serTxOut (out : CTxOut) : List UInt8 := serInt64 out.nValue ++ serScript out.scriptPubKey

def serWitness (stack : List (List UInt8)) : List UInt8 := lengthPrefixed serBytes stack

/-- The version, and the time if the version carries one. -/
def serTxVersion (tx : CTransaction) : List UInt8 :=
  serInt32 tx.nVersion ++ if tx.nVersion.toInt < 3 then serUInt32 tx.nTime else []

/-- `SerializeTransaction`. -/
def serializeTransaction (fAllowWitness : Bool) (tx : CTransaction) : List UInt8 :=
  let flags := fAllowWitness && tx.hasWitness
  serTxVersion tx ++
    -- an empty input vector and the flag byte announce the extended format
    ((if flags then [0, 1] else []) ++
      (lengthPrefixed serTxIn tx.vin ++ (lengthPrefixed serTxOut tx.vout ++
        ((if flags then tx.vin.flatMap (fun input => serWitness input.scriptWitness) else []) ++
          serUInt32 tx.nLockTime))))

namespace CTransaction

variable (hash256 : List UInt8 → Uint256)

/-- `CTransaction::ComputeHash`. -/
def getHash (tx : CTransaction) : Uint256 := hash256 (serializeTransaction false tx)

/-- `CTransaction::ComputeWitnessHash`. -/
def getWitnessHash (tx : CTransaction) : Uint256 :=
  if !tx.hasWitness then tx.getHash hash256 else hash256 (serializeTransaction true tx)

end CTransaction

/-- `GetSerializeSize` takes its second argument for the type of the stream and leaves the
version at 0, so the flag for sizes without witnesses that callers pass has no effect. -/
def txSize (tx : CTransaction) : ℕ := (serializeTransaction true tx).length

def WITNESS_SCALE_FACTOR : ℕ := 4

def getTransactionWeight (tx : CTransaction) : ℕ :=
  txSize tx * (WITNESS_SCALE_FACTOR - 1) + txSize tx

end Patchcoin
