import Patchcoin.Primitives.Block

/-!
# Consensus parameters and verdicts

The parameters of a network, the times at which protocol versions switch, and
the ways in which a check can end.
-/

namespace Patchcoin

/-! ## Parameters -/

/-- `NetworkIDString`. -/
inductive Network where
  | main
  | test
  | signet
  | regtest
  deriving DecidableEq, Repr

/-- The part of `Consensus::Params` that the modelled code reads. -/
structure Params where
  network : Network
  hashGenesisBlock : Uint256
  hashGenesisTx : Uint256
  hashPeercoinSnapshot : Uint256
  signet_blocks : Bool
  nStakeMinAge : ℤ
  nCoinbaseMaturity : ℤ
  nStakeGenesisLockTime : ℤ
  genesisNTime : ℤ
  genesisPubKey : CScript
  genesisValue : ℤ
  genesisOutputs : ℤ
  deriving Repr

/-- A switch time, with the value that every network but the main one uses. -/
def Params.switchTime (params : Params) (mainTime testTime : ℕ) : ℕ :=
  if params.network = .main then mainTime else testTime

/-- `IsProtocolV03`. -/
def isProtocolV03 (params : Params) (nTimeCoinStake : ℕ) : Bool :=
  decide (params.switchTime 1363800000 1359781000 ≤ nTimeCoinStake)

/-- `IsProtocolV07`. -/
def isProtocolV07 (params : Params) (nTimeTx : ℕ) : Bool :=
  decide (params.switchTime 1552392000 1541505600 ≤ nTimeTx)

/-- `IsBTC16BIPsEnabled`. -/
def isBTC16BIPsEnabled (params : Params) (nTimeTx : ℕ) : Bool :=
  decide (params.switchTime 1569931200 1554811200 ≤ nTimeTx)

/-- `IsProtocolV09`. -/
def isProtocolV09 (params : Params) (nTime : ℕ) : Bool :=
  decide (params.switchTime 1591617600 1581940800 ≤ nTime)

/-- `IsProtocolV12`, of the time of a block index entry. -/
def isProtocolV12 (params : Params) (nTime : ℕ) : Bool :=
  params.network == .regtest || decide (params.switchTime 1700276331 1671060214 ≤ nTime)

def MAX_BLOCK_WEIGHT : ℕ := 4000000
def MAX_BLOCK_SIGOPS_COST : ℕ := 80000
def MAX_FUTURE_BLOCK_TIME_PREV9 : ℕ := 2 * 60 * 60
def MAX_FUTURE_BLOCK_TIME : ℕ := 15 * 60
def MIN_TX_FEE : ℤ := 1000
def PERKB_TX_FEE : ℤ := CENT
def MIN_TXOUT_AMOUNT : ℤ := CENT

/-! ## Verdicts -/

/-- The results that the modelled code gives to `TxValidationState::Invalid`. -/
inductive TxValidationResult where
  | TX_CONSENSUS
  | TX_MISSING_INPUTS
  | TX_PREMATURE_SPEND
  deriving DecidableEq, Repr

/-- The results that the modelled code gives to `BlockValidationState::Invalid`. -/
inductive BlockValidationResult where
  | BLOCK_CONSENSUS
  | BLOCK_CACHED_INVALID
  | BLOCK_INVALID_HEADER
  | BLOCK_MUTATED
  | BLOCK_MISSING_PREV
  | BLOCK_INVALID_PREV
  | BLOCK_TIME_FUTURE
  | BLOCK_CHECKPOINT
  | BLOCK_HEADER_LOW_WORK
  deriving DecidableEq, Repr

/-- How a check fails.  Only the first case leaves a mark in the validation
state that the caller passed in. -/
inductive Fail (result : Type) where
  /-- `state.Invalid(result, reason)` -/
  | invalid (result : result) (reason : String)
  /-- `return false` with the state still valid -/
  | silent
  /-- `state.Error` or `AbortNode` -/
  | error (reason : String)
  /-- a C++ exception leaves the function -/
  | thrown
  /-- an `assert` fails and the process ends -/
  | aborted
  deriving DecidableEq, Repr

abbrev TxFail := Fail TxValidationResult
abbrev BlockFail := Fail BlockValidationResult

/-- A consensus failure of a transaction. -/
def txConsensus {α : Type} (reason : String) : Except TxFail α :=
  .error (.invalid .TX_CONSENSUS reason)

/-- A consensus failure of a block. -/
def blockConsensus {α : Type} (reason : String) : Except BlockFail α :=
  .error (.invalid .BLOCK_CONSENSUS reason)

/-- Any failure of a transaction in a block is a consensus failure of the block,
with the reason of the transaction; the callee's state is a local one. -/
def TxFail.toBlockFail : TxFail → BlockFail
  | .invalid _ reason => .invalid .BLOCK_CONSENSUS reason
  | .silent => .invalid .BLOCK_CONSENSUS ""
  | .error reason => .invalid .BLOCK_CONSENSUS reason
  | .thrown => .thrown
  | .aborted => .aborted

/-- Whether a check passed. -/
def passed {ε α : Type} : Except ε α → Bool
  | .ok _ => true
  | .error _ => false

@[simp] theorem passed_ok {ε α : Type} (a : α) : passed (.ok a : Except ε α) = true := rfl

@[simp] theorem passed_error {ε α : Type} (e : ε) : passed (.error e : Except ε α) = false := rfl

theorem passed_iff {ε : Type} {r : Except ε Unit} : passed r = true ↔ r = .ok () := by
  cases r with
  | ok u => simp
  | error e => simp

end Patchcoin
