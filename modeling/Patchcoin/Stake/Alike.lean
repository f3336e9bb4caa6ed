import Patchcoin.Stake.Node

/-!
# Nodes that differ in the flags of their entries

A simulation between two nodes that receive the same blocks, one block possibly
with different flags in its header.  Their entries differ at most in flags, and
entries with valid transactions agree in the three flags that have a meaning
(`StakeNode.Alike`).  Since the stake functions read no more than that of the
ancestors of a block, every further block leaves the nodes alike.

The one step that needs a condition is the block with the two flag values.  The
check adds the same bits to both, so the condition compares what results: the
three flags, and the checksum, into which all flags go (`StakeNode.SameState`).
-/

namespace Patchcoin

open CBlockIndex

variable {entry entry' : IndexEntry}

/-- The block arrives with other flags in its header. -/
def StakeArrival.withFlags (arrival : StakeArrival) (nFlags : UInt32) : StakeArrival :=
  { arrival with block := { arrival.block with nFlags := nFlags } }

/-! ## Nodes that differ in flags only -/

/-- Entries that differ in flags, and in flags without a meaning once they are valid. -/
structure IndexEntry.Alike (entry entry' : IndexEntry) : Prop where
  pprev : entry.pprev = entry'.pprev
  fields : entry.toCBlockIndex.masked 0 = entry'.toCBlockIndex.masked 0
  flags : entry.isValid BLOCK_VALID_TRANSACTIONS = true →
    entry.toCBlockIndex.masked STAKE_FLAGS = entry'.toCBlockIndex.masked STAKE_FLAGS

theorem IndexEntry.Alike.refl (entry : IndexEntry) : entry.Alike entry :=
  ⟨rfl, rfl, fun _ => rfl⟩

theorem IndexEntry.Alike.isValid_eq (h : entry.Alike entry') (nUpTo : ℕ) :
    entry.isValid nUpTo = entry'.isValid nUpTo := by
  obtain ⟨-, -, -, hstatus, -⟩ := fields_of_masked_eq h.fields
  unfold isValid
  rw [hstatus]

theorem IndexEntry.Alike.failed (h : entry.Alike entry') : entry.failed.Alike entry'.failed := by
  have hfields : ∀ entry : IndexEntry, entry.failed.toCBlockIndex.masked 0 =
      { entry.toCBlockIndex.masked 0 with
        nStatus := { entry.nStatus with failedValid := true } } := fun _ => rfl
  obtain ⟨-, -, -, hstatus, -⟩ := fields_of_masked_eq h.fields
  refine ⟨h.pprev, ?_, fun hvalid => absurd hvalid (by simp)⟩
  rw [hfields, hfields, h.fields, hstatus]

def BlockMap.Alike (index index' : BlockMap) : Prop :=
  ∀ hash, Option.Rel IndexEntry.Alike (index hash) (index' hash)

/-- Nodes with the same stakes seen and entries that differ in flags only. -/
structure StakeNode.Alike (node node' : StakeNode) : Prop where
  index : node.index.Alike node'.index
  seen : node.setStakeSeen = node'.setStakeSeen

namespace BlockMap.Alike

variable {index index' : BlockMap}
variable {entry entry' : IndexEntry} {hash : Uint256}

theorem refl (index : BlockMap) : index.Alike index := by
  intro hash
  cases index hash with
  | none => exact .none
  | some entry => exact .some (.refl entry)

section

variable (h : index.Alike index')
include h

/-- An entry on one side has its counterpart on the other. -/
theorem exists_of_some (hentry : index hash = some entry) :
    ∃ entry', index' hash = some entry' ∧ entry.Alike entry' := by
  have hrel := h hash
  rw [hentry] at hrel
  cases hother : index' hash with
  | none =>
    rw [hother] at hrel
    cases hrel
  | some entry' =>
    rw [hother] at hrel
    cases hrel with
    | some halike => exact ⟨entry', rfl, halike⟩

theorem eq_none_iff (hash : Uint256) : index hash = none ↔ index' hash = none := by
  have hrel := h hash
  cases hfirst : index hash with
  | none =>
    rw [hfirst] at hrel
    cases hother : index' hash with
    | none => simp
    | some entry' =>
      rw [hother] at hrel
      cases hrel
  | some entry =>
    obtain ⟨entry', hentry', -⟩ := h.exists_of_some hfirst
    simp [hentry']

/-- What alike entries agree on is found the same. -/
theorem map_eq {β : Type} {f : IndexEntry → β}
    (hf : ∀ entry entry', entry.Alike entry' → f entry = f entry') (hash : Uint256) :
    (index hash).map f = (index' hash).map f := by
  cases hentry : index hash with
  | none => rw [(h.eq_none_iff hash).mp hentry]
  | some entry =>
    obtain ⟨entry', hentry', halike⟩ := h.exists_of_some hentry
    rw [hentry', Option.map_some, Option.map_some, hf entry entry' halike]

theorem insert (hentry : entry.Alike entry') :
    (index.insert entry).Alike (index'.insert entry') := by
  obtain ⟨hhash, -⟩ := fields_of_masked_eq hentry.fields
  intro hash
  by_cases heq : hash = entry.hashBlock
  · rw [heq, insert_self, hhash, insert_self]
    exact .some hentry
  · rw [insert_of_ne index heq, insert_of_ne index' (by rw [← hhash]; exact heq)]
    exact h hash

section

variable (hrooted : index.Rooted)
include hrooted

/-- The chains of a valid block agree in the meaningful flags. -/
theorem walk : ∀ (count : ℕ) (hash : Uint256), index.ValidAt hash →
      maskedChain (index.walk count hash) = maskedChain (index'.walk count hash) := by
  intro count
  induction count with
  | zero => intro hash _; rfl
  | succ count ih =>
    rintro hash ⟨entry, hentry, hvalid⟩
    obtain ⟨entry', hentry', halike⟩ := h.exists_of_some hentry
    simp only [BlockMap.walk, hentry, hentry', maskedChain_cons, halike.flags hvalid,
      ← halike.pprev]
    cases hprev : entry.pprev with
    | none => rfl
    | some prev => simp only [ih prev (hrooted hash entry hentry hvalid prev hprev)]

theorem chainOf (hentry : index hash = some entry)
    (hvalid : entry.isValid BLOCK_VALID_TRANSACTIONS = true) (halike : entry.Alike entry') :
    maskedChain (index.chainOf entry) = maskedChain (index'.chainOf entry') := by
  obtain ⟨-, hheight, -⟩ := fields_of_masked_eq halike.fields
  simp only [BlockMap.chainOf, BlockMap.ancestors, maskedChain_cons, halike.flags hvalid,
    ← halike.pprev, ← hheight]
  cases hprev : entry.pprev with
  | none => rfl
  | some prev => simp only [h.walk hrooted _ prev (hrooted hash entry hentry hvalid prev hprev)]

theorem activeChain (tip : Uint256) :
    maskedChain (index.activeChain tip) = maskedChain (index'.activeChain tip) := by
  unfold BlockMap.activeChain
  cases htip : index tip with
  | none => rw [(h.eq_none_iff tip).mp htip]
  | some entry =>
    obtain ⟨entry', hentry', halike⟩ := h.exists_of_some htip
    simp only [hentry', ← halike.isValid_eq]
    by_cases hvalid : entry.isValid BLOCK_VALID_TRANSACTIONS = true
    · rw [if_pos hvalid, if_pos hvalid]
      exact h.chainOf hrooted htip hvalid halike
    · rw [if_neg hvalid, if_neg hvalid]

theorem stakeView_masked (tip : Uint256) :
    (index.stakeView tip).masked = (index'.stakeView tip).masked := by
  have hlookup : ∀ hash, (index.lookup hash).map (masked 0) =
      (index'.lookup hash).map (masked 0) := by
    intro hash
    unfold BlockMap.lookup
    rw [Option.map_map, Option.map_map]
    exact h.map_eq (fun entry entry' halike => halike.fields) hash
  simp only [StakeView.masked, BlockMap.stakeView, hlookup, h.activeChain hrooted tip]

end

/-- Valid blocks are found with the same meaningful flags. -/
theorem lookupsAlike (hvalid : index.ValidAt hash) :
    LookupsAlike index.lookup index'.lookup hash := by
  obtain ⟨entry, hentry, hentryValid⟩ := hvalid
  obtain ⟨entry', hentry', halike⟩ := h.exists_of_some hentry
  simp only [LookupsAlike, BlockMap.lookup, hentry, hentry', Option.map_some,
    halike.flags hentryValid]

end

end BlockMap.Alike

/-! ## The check on alike nodes -/

section

variable {env : Env} {stake : StakeRules} {node node' : StakeNode} {nFlags : UInt32}

namespace StakeNode

variable {parent parent' : IndexEntry} {arrival : StakeArrival}

/-- What the check finds out about a block on top of its parent. -/
def verdict (env : Env) (stake : StakeRules) (node : StakeNode) (rand : ℕ → ℕ)
    (arrival : StakeArrival) (parent : IndexEntry) : Except BlockFail StakeVerdict :=
  stakeVerdict (node.kernel env stake rand arrival) (node.index.chainOf parent) node.setStakeSeen
    (node.fresh env arrival).toCBlockIndex arrival.block

/-- The checksum of a block that arrives with the given flags. -/
def flagChecksum (env : Env) (parent : IndexEntry) (found : StakeVerdict) (nFlags : UInt32) :
    UInt32 :=
  UInt32.ofNat ((env.host.hash256 (serUInt32 parent.nStakeModifierChecksum ++
    (serUInt32 (nFlags ||| found.flags) ++ (found.hashProofOfStake.toBytes ++
      PrefixCode.leBytes 8 found.nStakeModifier.toNat)))).toNat / 2 ^ 224)

/-- The entry that the check leaves behind, if it passes. -/
def checkedEntry (env : Env) (node : StakeNode) (arrival : StakeArrival) (parent : IndexEntry)
    (found : StakeVerdict) : CBlockIndex :=
  { (node.fresh env arrival).toCBlockIndex.staked arrival.block found with
    nStakeModifierChecksum := flagChecksum env parent found arrival.block.nFlags }

theorem check_eq (node : StakeNode) (rand : ℕ → ℕ) (arrival : StakeArrival) (parent : IndexEntry) :
    node.check env stake rand arrival parent =
      match node.verdict env stake rand arrival parent with
      | .error failure => .error failure
      | .ok found =>
        if checkStakeModifierCheckpoints env (node.fresh env arrival).nHeight
            (flagChecksum env parent found arrival.block.nFlags) then
          .ok (node.checkedEntry env arrival parent found,
            seenAfter node.setStakeSeen arrival.block arrival.block.nTime)
        else .error .silent :=
  stakeCheck_eq (entropy_le_one node rand arrival) _ _ _

theorem Alike.refl (node : StakeNode) : node.Alike node := ⟨.refl node.index, rfl⟩

theorem Alike.parent? (h : node.Alike node') (arrival : StakeArrival) :
    Option.Rel IndexEntry.Alike (node.parent? env arrival) (node'.parent? env arrival) := by
  unfold StakeNode.parent?
  cases hknown : node.index (arrival.hash env) with
  | some entry =>
    obtain ⟨entry', hentry', -⟩ := h.index.exists_of_some hknown
    rw [hentry']
    exact .none
  | none =>
    rw [(h.index.eq_none_iff _).mp hknown]
    cases hprev : node.index arrival.block.hashPrevBlock with
    | none =>
      rw [(h.index.eq_none_iff _).mp hprev]
      exact .none
    | some parent =>
      obtain ⟨parent', hparent', halike⟩ := h.index.exists_of_some hprev
      simp only [hparent', Option.filter_some, ← halike.isValid_eq]
      split
      · exact .some halike
      · exact .none

theorem fresh_rooted (hparent : node.parent? env arrival = some parent) :
    (node.index.insert (node.fresh env arrival)).Rooted :=
  node.rooted.insert (parent?_eq_some_iff.mp hparent).1
    fun hvalid => absurd hvalid
      (by rw [show (node.fresh env arrival).isValid _ = false from rfl]; simp)

/-- A block that is not taken up leaves the node as it is. -/
theorem accept_of_none {arrival : StakeArrival} (hparent : node.parent? env arrival = none)
    (rand : ℕ → ℕ) : node.accept env stake rand arrival = node := by
  unfold accept
  split
  · rfl
  · next parent hsome =>
    rw [hparent] at hsome
    cases hsome

theorem accept_of_some {arrival : StakeArrival} {parent : IndexEntry}
    (hparent : node.parent? env arrival = some parent) (rand : ℕ → ℕ) :
    (node.accept env stake rand arrival).index =
        node.index.insert
          (node.entryAfter env arrival (node.check env stake rand arrival parent)) ∧
      (node.accept env stake rand arrival).setStakeSeen =
        node.seenAfterCheck (node.check env stake rand arrival parent) := by
  unfold accept
  split
  · next hnone =>
    rw [hparent] at hnone
    cases hnone
  · next found hfound =>
    rw [hparent, Option.some.injEq] at hfound
    subst hfound
    exact ⟨rfl, rfl⟩

/-- The two flag values lead to the same stake state of a block, given what the check
finds out about it. -/
def SameState (env : Env) (parent : IndexEntry) (found : StakeVerdict) (nFlags nFlags' : UInt32) :
    Prop :=
  (nFlags ||| found.flags) &&& STAKE_FLAGS = (nFlags' ||| found.flags) &&& STAKE_FLAGS ∧
    flagChecksum env parent found nFlags = flagChecksum env parent found nFlags'

section

variable (h : node.Alike node') (hpos : arrival.block.nFlags &&& CBlockIndex.BLOCK_PROOF_OF_STAKE =
  nFlags &&& CBlockIndex.BLOCK_PROOF_OF_STAKE)
include h hpos

/-- The entries of one block with two flag values differ in the flags only. -/
theorem Alike.fresh (env : Env) :
    (node.fresh env arrival).Alike (node'.fresh env (arrival.withFlags nFlags)) := by
  have hinvalid : (node.fresh env arrival).isValid BLOCK_VALID_TRANSACTIONS = false := rfl
  -- the parents agree in the heights that the new entry takes over
  have hheight := h.index.map_eq (f := fun pprev => pprev.nHeight + 1)
    (fun entry entry' halike => by rw [(fields_of_masked_eq halike.fields).2.1])
    arrival.block.hashPrevBlock
  have hstake : ∀ n, _ := fun n =>
    h.index.map_eq (f := fun pprev => pprev.nHeightStake + n)
      (fun entry entry' halike => by rw [(fields_of_masked_eq halike.fields).2.2.2.2])
      arrival.block.hashPrevBlock
  have hpprev := h.index.map_eq (f := fun _ => arrival.block.hashPrevBlock)
    (fun entry entry' _ => rfl) arrival.block.hashPrevBlock
  refine ⟨hpprev, ?_, fun hvalid => absurd hvalid (by rw [hinvalid]; simp)⟩
  unfold StakeNode.fresh
  rw [BlockMap.toCBlockIndex_newEntry, BlockMap.toCBlockIndex_newEntry]
  simp only [masked, ofHeader, StakeArrival.withFlags, hheight, hstake, hpos,
    UInt32.and_zero]
  rfl

/-- Alike nodes find out the same about a block, whatever flags it arrives with. -/
theorem Alike.verdict {parent parent' : IndexEntry}
    (hparent : node.parent? env arrival = some parent) (halike : parent.Alike parent')
    (rand rand' : ℕ → ℕ) : node.verdict env stake rand arrival parent =
      node'.verdict env stake rand' (arrival.withFlags nFlags) parent' := by
  obtain ⟨hnew, hprev, hvalid⟩ := parent?_eq_some_iff.mp hparent
  have hinsert := h.index.insert (h.fresh hpos env)
  have hchain := h.index.chainOf node.rooted hprev hvalid halike
  have hview := hinsert.stakeView_masked (fresh_rooted hparent) arrival.tip
  -- the ancestors are valid and not the new block, so that both nodes find them alike
  have hlookups : ∀ pindex ∈ node.index.chainOf parent, LookupsAlike
      (node.index.insert (node.fresh env arrival)).lookup
      (node'.index.insert (node'.fresh env (arrival.withFlags nFlags))).lookup
      pindex.hashBlock := by
    intro pindex hmem
    exact hinsert.lookupsAlike
      ((BlockMap.chainOf_valid node.keyed node.rooted hprev hvalid pindex hmem).insert hnew)
  have hproof : ∀ tx nBits nTimeTx,
      (node.kernel env stake rand arrival).checkProofOfStake (node.index.chainOf parent) tx nBits
          nTimeTx =
        (node'.kernel env stake rand' (arrival.withFlags nFlags)).checkProofOfStake
          (node'.index.chainOf parent') tx nBits nTimeTx := by
    intro tx nBits nTimeTx
    unfold StakeNode.kernel stakeKernel
    dsimp only
    rw [← checkProofOfStake_masked, hchain]
    refine congrArg (Except.mapError KernelFail.toBlockFail) ?_
    rw [← checkProofOfStake_masked env stake _ _ (node'.index.chainOf parent')]
    exact congrArg (fun view => checkProofOfStake env stake view _ _ tx nBits nTimeTx) hview
  have hnext : (node.kernel env stake rand arrival).computeNextStakeModifier
        (node.fresh env arrival).toCBlockIndex (node.index.chainOf parent) =
      (node'.kernel env stake rand' (arrival.withFlags nFlags)).computeNextStakeModifier
        (node'.fresh env (arrival.withFlags nFlags)).toCBlockIndex
        (node'.index.chainOf parent') :=
    computeNextStakeModifier_alike env stake hchain hlookups rfl rand rand'
  have hstake : (node.fresh env arrival).toCBlockIndex.isProofOfStake =
      (node'.fresh env (arrival.withFlags nFlags)).toCBlockIndex.isProofOfStake :=
    congrArg (· != 0) hpos
  unfold StakeNode.verdict stakeVerdict checkStake stakeState
  rw [hproof, hnext, hstake, h.seen]
  rfl

/-- The entries of a block that passed the check with two flag values. -/
theorem Alike.accepted {found : StakeVerdict}
    (hsum : parent.nStakeModifierChecksum = parent'.nStakeModifierChecksum)
    (hsame : SameState env parent found arrival.block.nFlags nFlags) :
    ((node.fresh env arrival).accepted (node.checkedEntry env arrival parent found)).Alike
      ((node'.fresh env (arrival.withFlags nFlags)).accepted
        (node'.checkedEntry env (arrival.withFlags nFlags) parent' found)) := by
  have hfresh := h.fresh hpos env
  have hsum' : flagChecksum env parent' found nFlags =
      flagChecksum env parent found arrival.block.nFlags := by
    rw [hsame.2, flagChecksum, flagChecksum, hsum]
  -- with one and the same flags the entries are equal: masks act on the flags only
  have hmask : ∀ mask, (arrival.block.nFlags ||| found.flags) &&& mask =
        (nFlags ||| found.flags) &&& mask →
      ((node.fresh env arrival).accepted
        (node.checkedEntry env arrival parent found)).toCBlockIndex.masked mask =
      ((node'.fresh env (arrival.withFlags nFlags)).accepted (node'.checkedEntry env
        (arrival.withFlags nFlags) parent' found)).toCBlockIndex.masked mask := by
    intro mask hflags
    obtain ⟨-, hheight, -, -, hheightStake⟩ := fields_of_masked_eq hfresh.fields
    have hentry : ∀ (node : StakeNode) (parent : IndexEntry) (nFlags : UInt32),
        ((node.fresh env (arrival.withFlags nFlags)).accepted (node.checkedEntry env
          (arrival.withFlags nFlags) parent found)).toCBlockIndex.masked mask =
        { staked (ofHeader (arrival.hash env)
            (node.fresh env (arrival.withFlags nFlags)).nHeight arrival.block.toCBlockHeader)
              arrival.block found with
          nStatus := { validity := BLOCK_VALID_TRANSACTIONS, haveData := true }
          nFlags := (nFlags ||| found.flags) &&& mask
          nHeightStake := (node.fresh env (arrival.withFlags nFlags)).nHeightStake
          nStakeModifierChecksum := flagChecksum env parent found nFlags } := by
      intro node parent nFlags
      rfl
    refine (hentry node parent arrival.block.nFlags).trans ?_
    rw [hentry, hflags, hsum', ← hheight, ← hheightStake]
    rfl
  exact ⟨hfresh.pprev, hmask 0 (by simp), fun _ => hmask STAKE_FLAGS hsame.1⟩

/-- Both checks fail, or both pass and leave alike entries behind. -/
theorem Alike.check {rand : ℕ → ℕ}
    (hparent : node.parent? env arrival = some parent) (halike : parent.Alike parent')
    (hsame : ∀ found, node.verdict env stake rand arrival parent = .ok found →
      SameState env parent found arrival.block.nFlags nFlags) (rand' : ℕ → ℕ) :
    (∃ failure failure', node.check env stake rand arrival parent = .error failure ∧
        node'.check env stake rand' (arrival.withFlags nFlags) parent' = .error failure') ∨
      ∃ pindex pindex' setStakeSeen,
        node.check env stake rand arrival parent = .ok (pindex, setStakeSeen) ∧
        node'.check env stake rand' (arrival.withFlags nFlags) parent' =
          .ok (pindex', setStakeSeen) ∧
        ((node.fresh env arrival).accepted pindex).Alike
          ((node'.fresh env (arrival.withFlags nFlags)).accepted pindex') := by
  obtain ⟨-, hheight, -⟩ := fields_of_masked_eq (h.fresh hpos env).fields
  rw [check_eq, check_eq, ← h.verdict hpos hparent halike rand rand']
  cases hfound : node.verdict env stake rand arrival parent with
  | error failure => exact .inl ⟨failure, failure, rfl, rfl⟩
  | ok found =>
    have hsum : parent.nStakeModifierChecksum = parent'.nStakeModifierChecksum := by
      have := congrArg nStakeModifierChecksum halike.fields
      exact this
    have hchecksum : flagChecksum env parent found arrival.block.nFlags =
        flagChecksum env parent' found nFlags := by
      rw [(hsame found hfound).2, flagChecksum, flagChecksum, hsum]
    have hflags : (arrival.withFlags nFlags).block.nFlags = nFlags := rfl
    simp only [hflags, ← hheight, ← hchecksum, ← h.seen]
    split
    · exact .inr ⟨_, _, _, rfl, rfl, h.accepted hpos hsum (hsame found hfound)⟩
    · exact .inl ⟨_, _, rfl, rfl⟩

/-- A block that arrives with two flag values leaves alike nodes alike, if the values
lead to the same stake state. -/
theorem Alike.accept {rand : ℕ → ℕ}
    (hsame : ∀ parent found, node.parent? env arrival = some parent →
      node.verdict env stake rand arrival parent = .ok found →
        SameState env parent found arrival.block.nFlags nFlags) (rand' : ℕ → ℕ) :
    (node.accept env stake rand arrival).Alike
      (node'.accept env stake rand' (arrival.withFlags nFlags)) := by
  have hrel : Option.Rel IndexEntry.Alike (node.parent? env arrival) (node'.parent? env arrival) :=
    h.parent? arrival
  match hparent : node.parent? env arrival, hparent' : node'.parent? env arrival with
  | none, none =>
    rw [accept_of_none hparent,
      accept_of_none (show node'.parent? env (arrival.withFlags nFlags) = none from hparent')]
    exact h
  | none, some parent' =>
    rw [hparent, hparent'] at hrel
    cases hrel
  | some parent, none =>
    rw [hparent, hparent'] at hrel
    cases hrel
  | some parent, some parent' =>
    rw [hparent, hparent'] at hrel
    have halike : parent.Alike parent' := by
      cases hrel with
      | some halike => exact halike
    have haccept := @accept_of_some env stake node arrival parent hparent rand
    have haccept' :=
      @accept_of_some env stake node' (arrival.withFlags nFlags) parent' hparent' rand'
    obtain ⟨failure, failure', hcheck, hcheck'⟩ |
      ⟨pindex, pindex', seen, hcheck, hcheck', hentry⟩ :=
      h.check hpos hparent halike (fun found => hsame parent found hparent) rand'
    · rw [hcheck] at haccept
      rw [hcheck'] at haccept'
      refine ⟨?_, ?_⟩
      · rw [haccept.1, haccept'.1]
        exact h.index.insert (h.fresh hpos env).failed
      · rw [haccept.2, haccept'.2]
        exact h.seen
    · rw [hcheck] at haccept
      rw [hcheck'] at haccept'
      refine ⟨?_, ?_⟩
      · rw [haccept.1, haccept'.1]
        exact h.index.insert hentry
      · rw [haccept.2, haccept'.2]
        rfl

end

/-- Any further blocks leave alike nodes alike. -/
theorem Alike.run (later : List StakeArrival) :
    ∀ {node node' : StakeNode} (_ : node.Alike node') (draws draws' : ℕ → ℕ → ℕ),
      (node.run env stake draws later).Alike (node'.run env stake draws' later) := by
  induction later with
  | nil => intro node node' h draws draws'; exact h
  | cons arrival rest ih =>
    intro node node' h draws draws'
    have hstep : (node.accept env stake (draws 0) arrival).Alike
        (node'.accept env stake (draws' 0) arrival) :=
      h.accept (show arrival.block.nFlags &&& _ = _ from rfl) (fun _ _ _ _ => ⟨rfl, rfl⟩) (draws' 0)
    exact ih hstep _ _

end StakeNode

end

end Patchcoin
