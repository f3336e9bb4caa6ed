import Patchcoin.Chain.Index
import Mathlib.Logic.Function.Basic

/-!
# The map of block index entries

`m_block_index` holds every header that was accepted, on the active chain or not.
An entry points to the entry of its parent; following these pointers gives the
chain of an entry, which the other modules use as a list.

Two facts hold of every map that `AddToBlockIndex` builds and that only marks
entries as valid whose parents are: an entry stands under its own hash
(`BlockMap.Keyed`), and the ancestors of an entry with valid transactions have
valid transactions, too (`BlockMap.Rooted`).
-/

namespace Patchcoin

/-- An entry with its place in the tree of blocks. -/
structure IndexEntry extends CBlockIndex where
  /-- the hash of the parent, unless it was unknown when the entry was made -/
  pprev : Option Uint256
  nChainTrust : ℕ := 0
  /-- the number of transactions, once they were received -/
  nTx : ℕ := 0

/-- The target of `arith_uint256::SetCompact`, unless it is negative or overflows. -/
def compactTarget (nCompact : UInt32) : Option ℕ :=
  let nSize := nCompact.toNat / 2 ^ 24
  let mantissa := (nCompact &&& 0x007fffff).toNat
  let nWord := if nSize ≤ 3 then mantissa / 2 ^ (8 * (3 - nSize)) else mantissa
  let fNegative := nWord ≠ 0 ∧ nCompact &&& 0x00800000 ≠ 0
  let fOverflow := nWord ≠ 0 ∧
    (34 < nSize ∨ 0xff < nWord ∧ 33 < nSize ∨ 0xffff < nWord ∧ 32 < nSize)
  if fNegative ∨ fOverflow then none
  else some (if nSize ≤ 3 then nWord else nWord * 2 ^ (8 * (nSize - 3)) % 2 ^ 256)

/-- `GetBlockTrust`. -/
def getBlockTrust (pindex : CBlockIndex) : ℕ :=
  match compactTarget pindex.nBits with
  | none => 0
  | some bnTarget =>
    if bnTarget = 0 then 0
    else if pindex.isProofOfStake then (2 ^ 256 - 1 - bnTarget) / (bnTarget + 1) + 1
    else 1

/-- `m_block_index`. -/
abbrev BlockMap := Uint256 → Option IndexEntry

namespace BlockMap

variable (index : BlockMap)
variable {entry : IndexEntry} {hash : Uint256}

/-- The entries from a hash on towards the genesis block, at most so many. -/
def walk : ℕ → Uint256 → IndexChain
  | 0, _ => []
  | count + 1, hash =>
    match index hash with
    | none => []
    | some entry => entry.toCBlockIndex ::
        match entry.pprev with
        | none => []
        | some prev => walk count prev

/-- The ancestors of an entry, nearest first.  At height `n` there are `n` of them. -/
def ancestors (entry : IndexEntry) : IndexChain :=
  match entry.pprev with
  | none => []
  | some prev => index.walk entry.nHeight prev

/-- An entry and its ancestors. -/
def chainOf (entry : IndexEntry) : IndexChain := entry.toCBlockIndex :: index.ancestors entry

/-- `LookupBlockIndex`, without the place in the tree. -/
def lookup (hash : Uint256) : Option CBlockIndex := (index hash).map IndexEntry.toCBlockIndex

def insert (entry : IndexEntry) : BlockMap := Function.update index entry.hashBlock (some entry)

theorem insert_self (entry : IndexEntry) : index.insert entry entry.hashBlock = some entry :=
  Function.update_self ..

theorem insert_of_ne (hne : hash ≠ entry.hashBlock) :
    index.insert entry hash = index hash := Function.update_of_ne hne ..

/-- The entry that `AddToBlockIndex` makes of a new header. -/
def newEntry (hash256 : List UInt8 → Uint256) (header : CBlockHeader) : IndexEntry :=
  let parent := index header.hashPrevBlock
  let pindexNew := CBlockIndex.ofHeader (header.getHash hash256)
    ((parent.map fun pprev => pprev.nHeight + 1).getD 0) header
  { pindexNew.raiseValidity BLOCK_VALID_TREE with
    nHeightStake := (parent.map fun pprev => pprev.nHeightStake +
      (header.nFlags &&& CBlockIndex.BLOCK_PROOF_OF_STAKE).toNat).getD 0
    pprev := parent.map fun _ => header.hashPrevBlock
    nChainTrust :=
      ((parent.map IndexEntry.nChainTrust).getD 0 + getBlockTrust pindexNew) % 2 ^ 256 }

/-- `AddToBlockIndex`: a header that is known keeps its entry. -/
def addToBlockIndex (hash256 : List UInt8 → Uint256) (header : CBlockHeader) :
    BlockMap × IndexEntry :=
  match index (header.getHash hash256) with
  | some entry => (index, entry)
  | none => (index.insert (index.newEntry hash256 header), index.newEntry hash256 header)

@[simp] theorem hashBlock_newEntry (hash256 : List UInt8 → Uint256) (header : CBlockHeader) :
    (index.newEntry hash256 header).hashBlock = header.getHash hash256 := rfl

theorem toCBlockIndex_newEntry (hash256 : List UInt8 → Uint256) (header : CBlockHeader) :
    (index.newEntry hash256 header).toCBlockIndex =
      { CBlockIndex.ofHeader (header.getHash hash256)
          (((index header.hashPrevBlock).map fun pprev => pprev.nHeight + 1).getD 0) header with
        nStatus := { validity := BLOCK_VALID_TREE }
        nHeightStake := ((index header.hashPrevBlock).map fun pprev => pprev.nHeightStake +
          (header.nFlags &&& CBlockIndex.BLOCK_PROOF_OF_STAKE).toNat).getD 0 } := rfl

/-! ## Well-formed maps -/

/-- Entries stand under their hashes. -/
def Keyed : Prop := ∀ hash entry, index hash = some entry → entry.hashBlock = hash

/-- The entry under a hash has valid transactions. -/
def ValidAt (hash : Uint256) : Prop :=
  ∃ entry, index hash = some entry ∧ entry.isValid BLOCK_VALID_TRANSACTIONS = true

/-- Blocks with valid transactions have parents with valid transactions. -/
def Rooted : Prop :=
  ∀ hash entry, index hash = some entry → entry.isValid BLOCK_VALID_TRANSACTIONS = true →
    ∀ prev, entry.pprev = some prev → index.ValidAt prev

variable {index}

theorem Keyed.insert (hkeyed : index.Keyed) (entry : IndexEntry) : (index.insert entry).Keyed := by
  intro hash found hfound
  by_cases heq : hash = entry.hashBlock
  · rw [heq, insert_self, Option.some.injEq] at hfound
    rw [heq, hfound]
  · rw [insert_of_ne index heq] at hfound
    exact hkeyed hash found hfound

/-- What was valid stays valid when a new entry is inserted. -/
theorem ValidAt.insert (hvalid : index.ValidAt hash) (hnew : index entry.hashBlock = none) :
    (index.insert entry).ValidAt hash := by
  obtain ⟨found, hfound, hfoundValid⟩ := hvalid
  have hne : hash ≠ entry.hashBlock := by
    rintro rfl
    rw [hnew] at hfound
    cases hfound
  exact ⟨found, (insert_of_ne index hne).trans hfound, hfoundValid⟩

/-- A new entry may be inserted if its parent is valid as soon as it is itself. -/
theorem Rooted.insert (hrooted : index.Rooted) (hnew : index entry.hashBlock = none)
    (hparent : entry.isValid BLOCK_VALID_TRANSACTIONS = true →
      ∀ prev, entry.pprev = some prev → index.ValidAt prev) : (index.insert entry).Rooted := by
  intro hash found hfound hvalid prev hprev
  by_cases heq : hash = entry.hashBlock
  · rw [heq, insert_self, Option.some.injEq] at hfound
    subst hfound
    exact (hparent hvalid prev hprev).insert hnew
  · rw [insert_of_ne index heq] at hfound
    exact (hrooted hash found hfound hvalid prev hprev).insert hnew

/-- The entries of the walk from a valid entry are valid and found under their hashes. -/
theorem walk_valid (hkeyed : index.Keyed) (hrooted : index.Rooted) :
    ∀ (count : ℕ) (hash : Uint256), index.ValidAt hash →
      ∀ pindex ∈ index.walk count hash, index.ValidAt pindex.hashBlock := by
  intro count
  induction count with
  | zero =>
    intro hash _ pindex hmem
    simp [walk] at hmem
  | succ count ih =>
    rintro hash ⟨entry, hentry, hvalid⟩ pindex hmem
    simp only [walk, hentry, List.mem_cons] at hmem
    rcases hmem with rfl | hmem
    · rw [hkeyed hash entry hentry]
      exact ⟨entry, hentry, hvalid⟩
    · cases hprev : entry.pprev with
      | none => simp [hprev] at hmem
      | some prev =>
        simp only [hprev] at hmem
        exact ih prev (hrooted hash entry hentry hvalid prev hprev) pindex hmem

/-- A valid entry and its ancestors are valid and found under their hashes. -/
theorem chainOf_valid (hkeyed : index.Keyed) (hrooted : index.Rooted)
    (hentry : index hash = some entry) (hvalid : entry.isValid BLOCK_VALID_TRANSACTIONS = true) :
    ∀ pindex ∈ index.chainOf entry, index.ValidAt pindex.hashBlock := by
  intro pindex hmem
  rcases List.mem_cons.mp hmem with rfl | hmem
  · rw [hkeyed hash entry hentry]
    exact ⟨entry, hentry, hvalid⟩
  · unfold ancestors at hmem
    cases hprev : entry.pprev with
    | none => simp [hprev] at hmem
    | some prev =>
      simp only [hprev] at hmem
      exact walk_valid hkeyed hrooted _ prev (hrooted hash entry hentry hvalid prev hprev)
        pindex hmem

end BlockMap

end Patchcoin
