import Patchcoin.Chain.BlockIndex

/-!
# The tree of block index entries

`AddToBlockIndex` gives a new entry a place one above its parent.  So the heights grow
along every chain, no entry is its own ancestor, and an entry can be written again without
a change to the walk along its ancestors.
-/

namespace Patchcoin

namespace BlockMap

/-- The parent of an entry is in the map, one below the entry. -/
def Linked (index : BlockMap) : Prop :=
  ∀ hash entry prev, index hash = some entry → entry.pprev = some prev →
    ∃ parent, index prev = some parent ∧ entry.nHeight = parent.nHeight + 1

variable {index : BlockMap} {entry written : IndexEntry} {hash : Uint256}

/-- What is in the map stays when a header is added. -/
theorem addToBlockIndex_of_some (hentry : index hash = some entry)
    (hash256 : List UInt8 → Uint256) (header : CBlockHeader) :
    (index.addToBlockIndex hash256 header).1 hash = some entry := by
  unfold BlockMap.addToBlockIndex
  split
  · exact hentry
  · next hnew =>
    refine (insert_of_ne index ?_).trans hentry
    rintro rfl
    rw [hashBlock_newEntry, hnew] at hentry
    cases hentry

/-- What `AddToBlockIndex` leaves under a hash is what was there, or the new entry. -/
theorem addToBlockIndex_cases {hash256 : List UInt8 → Uint256} {header : CBlockHeader}
    (hentry : (index.addToBlockIndex hash256 header).1 hash = some entry) :
    index hash = some entry ∨
      hash = header.getHash hash256 ∧ entry = index.newEntry hash256 header := by
  unfold BlockMap.addToBlockIndex at hentry
  split at hentry
  · exact .inl hentry
  · by_cases hnew : hash = header.getHash hash256
    · subst hnew
      exact .inr ⟨rfl, (Option.some.inj ((insert_self index _).symm.trans hentry)).symm⟩
    · exact .inl ((insert_of_ne index hnew).symm.trans hentry)

theorem Linked.addToBlockIndex (hlinked : index.Linked) (hash256 : List UInt8 → Uint256)
    (header : CBlockHeader) : (index.addToBlockIndex hash256 header).1.Linked := by
  intro hash entry prev hentry hprev
  rcases addToBlockIndex_cases hentry with hold | ⟨rfl, rfl⟩
  · obtain ⟨parent, hparent, hheight⟩ := hlinked hash entry prev hold hprev
    exact ⟨parent, addToBlockIndex_of_some hparent hash256 header, hheight⟩
  · obtain ⟨parent, hparent, rfl⟩ := Option.map_eq_some_iff.mp hprev
    refine ⟨parent, addToBlockIndex_of_some hparent hash256 header, ?_⟩
    rw [toCBlockIndex_newEntry, hparent]
    rfl

section

variable (hkeyed : index.Keyed) (hash256 : List UInt8 → Uint256) (header : CBlockHeader)
include hkeyed hash256 header

/-- The entry of the header is in the map under its hash. -/
theorem addToBlockIndex_self : (index.addToBlockIndex hash256 header).1 (header.getHash hash256) =
        some (index.addToBlockIndex hash256 header).2 ∧
      (index.addToBlockIndex hash256 header).2.hashBlock = header.getHash hash256 := by
  unfold BlockMap.addToBlockIndex
  cases hknown : index (header.getHash hash256) with
  | some entry => exact ⟨hknown, hkeyed _ entry hknown⟩
  | none => exact ⟨insert_self index (index.newEntry hash256 header), rfl⟩

theorem Keyed.addToBlockIndex : (index.addToBlockIndex hash256 header).1.Keyed := by
  unfold BlockMap.addToBlockIndex
  split
  · exact hkeyed
  · exact hkeyed.insert _

end

/-- An entry is written again in its place. -/
structure Rewrites (index : BlockMap) (entry written : IndexEntry) : Prop where
  known : index entry.hashBlock = some entry
  hashBlock : written.hashBlock = entry.hashBlock
  pprev : written.pprev = entry.pprev
  nHeight : written.nHeight = entry.nHeight

theorem Rewrites.insert_self (h : index.Rewrites entry written) :
    index.insert written entry.hashBlock = some written := by
  rw [← h.hashBlock]
  exact BlockMap.insert_self index written

theorem Rewrites.insert_of_ne (h : index.Rewrites entry written) (hne : hash ≠ entry.hashBlock) :
    index.insert written hash = index hash :=
  BlockMap.insert_of_ne index (h.hashBlock ▸ hne)

/-- What is under a hash then is what was there, or the entry that was written. -/
theorem Rewrites.cases (h : index.Rewrites entry written) {found : IndexEntry}
    (hfound : index.insert written hash = some found) :
    index hash = some found ∨ hash = entry.hashBlock ∧ found = written := by
  by_cases hsame : hash = entry.hashBlock
  · subst hsame
    exact .inr ⟨rfl, (Option.some.inj (h.insert_self.symm.trans hfound)).symm⟩
  · exact .inl ((h.insert_of_ne hsame).symm.trans hfound)

section

variable (hlinked : index.Linked) (h : index.Rewrites entry written)
include hlinked h

theorem Linked.rewrite : (index.insert written).Linked := by
  -- every entry keeps its height
  have hkept {prev : Uint256} {parent : IndexEntry} (hparent : index prev = some parent) :
      ∃ parent', index.insert written prev = some parent' ∧ parent'.nHeight = parent.nHeight := by
    by_cases hsame : prev = entry.hashBlock
    · subst hsame
      rw [h.known] at hparent
      cases hparent
      exact ⟨written, h.insert_self, h.nHeight⟩
    · exact ⟨parent, (h.insert_of_ne hsame).trans hparent, rfl⟩
  intro hash found prev hfound hprev
  rcases h.cases hfound with hold | ⟨rfl, rfl⟩
  · obtain ⟨parent, hparent, hheight⟩ := hlinked hash found prev hold hprev
    obtain ⟨parent', hparent', hsameHeight⟩ := hkept hparent
    exact ⟨parent', hparent', by rw [hheight, hsameHeight]⟩
  · rw [h.pprev] at hprev
    obtain ⟨parent, hparent, hheight⟩ := hlinked _ entry prev h.known hprev
    obtain ⟨parent', hparent', hsameHeight⟩ := hkept hparent
    exact ⟨parent', hparent', by rw [h.nHeight, hheight, hsameHeight]⟩

/-- The walk along entries below the one that is written again. -/
theorem Rewrites.walk (count : ℕ) :
    ∀ hash, (∀ parent, index hash = some parent → parent.nHeight < entry.nHeight) →
      (index.insert written).walk count hash = index.walk count hash := by
  induction count with
  | zero => intro hash _; rfl
  | succ count ih =>
    intro hash hbelow
    have hne : hash ≠ entry.hashBlock := by
      rintro rfl
      exact absurd (hbelow entry h.known) (lt_irrefl _)
    rw [BlockMap.walk, BlockMap.walk, h.insert_of_ne hne]
    cases hparent : index hash with
    | none => rfl
    | some parent =>
      dsimp only
      cases hprev : parent.pprev with
      | none => rfl
      | some prev =>
        dsimp only
        rw [ih prev fun grand hgrand => ?_]
        obtain ⟨found, hfound, hheight⟩ := hlinked hash parent prev hparent hprev
        rw [hgrand] at hfound
        cases hfound
        have hlt := hbelow parent hparent
        omega

theorem Rewrites.ancestors : (index.insert written).ancestors written = index.ancestors entry := by
  unfold BlockMap.ancestors
  rw [h.pprev, h.nHeight]
  cases hprev : entry.pprev with
  | none => rfl
  | some prev =>
    refine h.walk hlinked _ prev fun parent hparent => ?_
    obtain ⟨found, hfound, hheight⟩ := hlinked _ entry prev h.known hprev
    rw [hparent] at hfound
    cases hfound
    omega

end

/-- The entries of a walk are in the map, not above the one where it starts. -/
theorem mem_walk (hkeyed : index.Keyed) (hlinked : index.Linked) (count : ℕ) :
    ∀ hash parent, index hash = some parent → ∀ pindex ∈ index.walk count hash,
      ∃ found, index pindex.hashBlock = some found ∧ found.toCBlockIndex = pindex ∧
        pindex.nHeight ≤ parent.nHeight := by
  induction count with
  | zero =>
    intro hash parent _ pindex hmem
    exact absurd hmem (by simp [walk])
  | succ count ih =>
    intro hash parent hparent pindex hmem
    rw [walk, hparent] at hmem
    rcases List.mem_cons.mp hmem with rfl | hmem
    · exact ⟨parent, by rw [hkeyed hash parent hparent, hparent], rfl, le_rfl⟩
    · cases hprev : parent.pprev with
      | none => simp [hprev] at hmem
      | some prev =>
        rw [hprev] at hmem
        obtain ⟨grand, hgrand, hheight⟩ := hlinked hash parent prev hparent hprev
        obtain ⟨found, hfound, heq, hle⟩ := ih prev grand hgrand pindex hmem
        exact ⟨found, hfound, heq, by omega⟩

/-- No entry is among its own ancestors. -/
theorem hashBlock_ne_of_mem_ancestors (hkeyed : index.Keyed) (hlinked : index.Linked)
    (hentry : index entry.hashBlock = some entry) {pindex : CBlockIndex}
    (hmem : pindex ∈ index.ancestors entry) : pindex.hashBlock ≠ entry.hashBlock := by
  unfold BlockMap.ancestors at hmem
  cases hprev : entry.pprev with
  | none => simp [hprev] at hmem
  | some prev =>
    rw [hprev] at hmem
    obtain ⟨parent, hparent, hheight⟩ := hlinked _ entry prev hentry hprev
    obtain ⟨found, hfound, heq, hle⟩ := mem_walk hkeyed hlinked _ prev parent hparent pindex hmem
    intro hsame
    rw [hsame, hentry] at hfound
    cases hfound
    have hown : entry.nHeight = pindex.nHeight := congrArg CBlockIndex.nHeight heq
    omega

end BlockMap

end Patchcoin
