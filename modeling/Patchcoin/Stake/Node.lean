import Patchcoin.Stake.Masked

/-!
# A node that accepts blocks

The part of `AcceptBlock` that concerns the stake: a block whose parent has valid
transactions gets an entry in the block index, the stake check is run on the entry
and decides whether the entry becomes valid or is marked as failed.  Header and
block checks that come before the stake check do not read or write what is at
stake here; they only keep some blocks from arriving.

The node carries the two facts about its block index that the walks along the
parents rest on.
-/

namespace Patchcoin

open CBlockIndex

/-- `ReceivedBlockTransactions`: the block of the entry was written to disk. -/
def CBlockIndex.received (pindex : CBlockIndex) : CBlockIndex :=
  let pindex := { pindex with nStatus := { pindex.nStatus with haveData := true } }
  pindex.raiseValidity BLOCK_VALID_TRANSACTIONS

namespace IndexEntry

/-- The entry of a block that passed the check, which left the given entry behind. -/
def accepted (entry : IndexEntry) (pindex : CBlockIndex) : IndexEntry :=
  { entry with toCBlockIndex := pindex.received }

/-- The entry of a block that failed: `nStatus |= BLOCK_FAILED_VALID`. -/
def failed (entry : IndexEntry) : IndexEntry :=
  { entry with nStatus := { entry.nStatus with failedValid := true } }

@[simp] theorem hashBlock_failed (entry : IndexEntry) : entry.failed.hashBlock = entry.hashBlock :=
  rfl

@[simp] theorem pprev_failed (entry : IndexEntry) : entry.failed.pprev = entry.pprev := rfl

@[simp] theorem isValid_failed (entry : IndexEntry) (nUpTo : ℕ) :
    entry.failed.isValid nUpTo = false := by
  simp [failed, isValid]

@[simp] theorem pprev_accepted (entry : IndexEntry) (pindex : CBlockIndex) :
    (entry.accepted pindex).pprev = entry.pprev := rfl

end IndexEntry

theorem CBlockIndex.hashBlock_raiseValidity (pindex : CBlockIndex) (nUpTo : ℕ) :
    (pindex.raiseValidity nUpTo).hashBlock = pindex.hashBlock := by
  unfold raiseValidity
  split <;> rfl

@[simp] theorem IndexEntry.hashBlock_accepted (entry : IndexEntry) (pindex : CBlockIndex) :
    (entry.accepted pindex).hashBlock = pindex.hashBlock :=
  hashBlock_raiseValidity ..

/-- An entry without a failure is valid up to what it was raised to. -/
theorem IndexEntry.isValid_accepted {entry : IndexEntry} {pindex : CBlockIndex}
    (hfailed : pindex.nStatus.failedValid = false) (hchild : pindex.nStatus.failedChild = false) :
    (entry.accepted pindex).isValid BLOCK_VALID_TRANSACTIONS = true := by
  by_cases hlow : pindex.nStatus.validity < BLOCK_VALID_TRANSACTIONS
  · simp [accepted, received, raiseValidity, isValid, hfailed,
      hchild, hlow]
  · have hle : BLOCK_VALID_TRANSACTIONS ≤ pindex.nStatus.validity := Nat.le_of_not_lt hlow
    simp [accepted, received, raiseValidity, isValid, hfailed,
      hchild, hlow, hle]

/-- What the node keeps about blocks and their stakes. -/
structure StakeNode where
  index : BlockMap
  setStakeSeen : List (COutPoint × UInt32)
  keyed : index.Keyed
  rooted : index.Rooted

/-- A block that reaches the stake check, and what the node reads then: the tip of the
active chain and the transaction index. -/
structure StakeArrival where
  block : CBlock
  tip : Uint256
  g_txindex : Option TxIndex

namespace BlockMap

/-- The active chain with the given tip.  Only valid blocks are connected. -/
def activeChain (index : BlockMap) (tip : Uint256) : IndexChain :=
  match index tip with
  | some entry => if entry.isValid BLOCK_VALID_TRANSACTIONS then index.chainOf entry else []
  | none => []

/-- What the stake check sees of the block index. -/
def stakeView (index : BlockMap) (tip : Uint256) : StakeView where
  lookup := index.lookup
  m_chain := index.activeChain tip

end BlockMap

section

variable (env : Env) (stake : StakeRules)

/-- The hash of the block that arrives. -/
def StakeArrival.hash (arrival : StakeArrival) : Uint256 := arrival.block.getHash env.host.hash256

namespace StakeNode

variable {parent : IndexEntry} {arrival : StakeArrival} {node : StakeNode}

/-- The entry of a new block, before it is checked. -/
def fresh (node : StakeNode) (arrival : StakeArrival) : IndexEntry :=
  node.index.newEntry env.host.hash256 arrival.block.toCBlockHeader

/-- The stake functions in the situation of an arrival. -/
def kernel (node : StakeNode) (rand : ℕ → ℕ) (arrival : StakeArrival) : Kernel :=
  stakeKernel env stake ((node.index.insert (node.fresh env arrival)).stakeView arrival.tip)
    arrival.g_txindex rand

/-- The stake check of a new block on top of its parent. -/
def check (node : StakeNode) (rand : ℕ → ℕ) (arrival : StakeArrival) (parent : IndexEntry) :
    Except BlockFail (CBlockIndex × List (COutPoint × UInt32)) :=
  stakeCheck (node.kernel env stake rand arrival) (node.index.chainOf parent) node.setStakeSeen
    (node.fresh env arrival).toCBlockIndex arrival.block

/-- The parent of a new block, if the block is new and the parent is valid. -/
def parent? (node : StakeNode) (arrival : StakeArrival) : Option IndexEntry :=
  match node.index (arrival.hash env) with
  | some _ => none
  | none => (node.index arrival.block.hashPrevBlock).filter
      fun parent => parent.isValid BLOCK_VALID_TRANSACTIONS

/-- The entry that a checked block gets. -/
def entryAfter (node : StakeNode) (arrival : StakeArrival)
    (checked : Except BlockFail (CBlockIndex × List (COutPoint × UInt32))) : IndexEntry :=
  match checked with
  | .error _ => (node.fresh env arrival).failed
  | .ok (pindex, _) => (node.fresh env arrival).accepted pindex

/-- The set of stakes after a check. -/
def seenAfterCheck (node : StakeNode)
    (checked : Except BlockFail (CBlockIndex × List (COutPoint × UInt32))) :
    List (COutPoint × UInt32) :=
  match checked with
  | .error _ => node.setStakeSeen
  | .ok (_, setStakeSeen) => setStakeSeen

variable {env stake}

theorem entropy_le_one (node : StakeNode) (rand : ℕ → ℕ) (arrival : StakeArrival)
    (block : CBlock) : (node.kernel env stake rand arrival).getStakeEntropyBit block ≤ 1 :=
  getStakeEntropyBit_le_one env block

theorem parent?_eq_some_iff : node.parent? env arrival = some parent ↔
      node.index (arrival.hash env) = none ∧
        node.index arrival.block.hashPrevBlock = some parent ∧
          parent.isValid BLOCK_VALID_TRANSACTIONS = true := by
  unfold parent?
  cases hknown : node.index (arrival.hash env) with
  | some entry => simp
  | none => simp [Option.filter_eq_some_iff]

/-- The check keeps the hash and the status of the entry. -/
theorem check_ok_kept {rand : ℕ → ℕ} {pindex : CBlockIndex}
    {setStakeSeen : List (COutPoint × UInt32)}
    (hcheck : node.check env stake rand arrival parent = .ok (pindex, setStakeSeen)) :
    pindex.hashBlock = arrival.hash env ∧
      pindex.nStatus = (node.fresh env arrival).nStatus := by
  rw [check, stakeCheck_eq (entropy_le_one node rand arrival)] at hcheck
  split at hcheck
  · cases hcheck
  · next verdict hverdict =>
    split at hcheck
    · rw [Except.ok.injEq, Prod.mk.injEq] at hcheck
      obtain ⟨rfl, -⟩ := hcheck
      exact ⟨rfl, rfl⟩
    · cases hcheck

theorem hashBlock_entryAfter (node : StakeNode) (rand : ℕ → ℕ) (arrival : StakeArrival)
    (parent : IndexEntry) :
    (node.entryAfter env arrival (node.check env stake rand arrival parent)).hashBlock =
      arrival.hash env := by
  cases hcheck : node.check env stake rand arrival parent with
  | error failure => rfl
  | ok checked =>
    obtain ⟨pindex, setStakeSeen⟩ := checked
    rw [entryAfter, IndexEntry.hashBlock_accepted, (check_ok_kept hcheck).1]

theorem pprev_entryAfter (hparent : node.parent? env arrival = some parent)
    (checked : Except BlockFail (CBlockIndex × List (COutPoint × UInt32))) :
    (node.entryAfter env arrival checked).pprev = some arrival.block.hashPrevBlock := by
  obtain ⟨-, hprev, -⟩ := parent?_eq_some_iff.mp hparent
  have hfresh : (node.fresh env arrival).pprev = some arrival.block.hashPrevBlock := by
    simp [fresh, BlockMap.newEntry, hprev]
  cases checked with
  | error failure => exact hfresh
  | ok checked => exact hfresh

variable (env stake)

/-- A block arrives.  Known blocks and blocks on unknown or invalid parents change
nothing. -/
def accept (node : StakeNode) (rand : ℕ → ℕ) (arrival : StakeArrival) : StakeNode :=
  match hparent : node.parent? env arrival with
  | none => node
  | some parent =>
    { index := node.index.insert
        (node.entryAfter env arrival (node.check env stake rand arrival parent))
      setStakeSeen := node.seenAfterCheck (node.check env stake rand arrival parent)
      keyed := node.keyed.insert _
      rooted := by
        obtain ⟨hnew, hprev, hvalid⟩ := parent?_eq_some_iff.mp hparent
        apply node.rooted.insert
        · rw [hashBlock_entryAfter]
          exact hnew
        · intro _ prev hpprev
          rw [pprev_entryAfter hparent, Option.some.injEq] at hpprev
          subst hpprev
          exact ⟨parent, hprev, hvalid⟩ }

/-- Blocks arrive one after the other; `draws` gives the random numbers of each. -/
def run : (draws : ℕ → ℕ → ℕ) → List StakeArrival → StakeNode → StakeNode
  | _, [], node => node
  | draws, arrival :: rest, node =>
    run (fun n => draws (n + 1)) rest (node.accept env stake (draws 0) arrival)

end StakeNode

end

end Patchcoin
