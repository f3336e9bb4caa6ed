import Patchcoin.Chain.Finished
import Patchcoin.SmallStake

/-!
# The schedule of stake modifiers

Time is divided into intervals, and a block may generate a new stake modifier only in a
later interval than the last one was generated in.  Block times may go backwards from one
block to the next, so that this is no consequence of the order of the times.  What carries
the schedule is the search for the last modifier: it finds the nearest ancestor that
generated one, and the interval of that ancestor is the latest of all
(`modifier_schedule`).

The check may run on an entry more than once, from `AcceptBlock` and from `ConnectBlock`.
Whether a modifier is generated depends on the ancestors and on the time of the block
only (`generated_eq_of_computed`), so that the second run decides as the first did.
-/

namespace Patchcoin

open CBlockIndex List

variable {env : Env} {stake : StakeRules} {ancestors chain : IndexChain} {pindex : CBlockIndex}
variable {fGenerated : Bool} {st : ConnectState} {nStakeModifier : UInt64}
  {lookup : Uint256 → Option CBlockIndex} {rand : ℕ → ℕ}

/-- The modifier interval that a block lies in. -/
def CBlockIndex.modifierEpoch (stake : StakeRules) (pindex : CBlockIndex) : ℕ :=
  pindex.getBlockTime / stake.nModifierInterval

/-! ## The next modifier -/

/-- `GetLastStakeModifier` finds the nearest block that generated a modifier. -/
theorem getLastStakeModifier_eq (chain : IndexChain) :
    getLastStakeModifier chain = (chain.find? generatedStakeModifier).map
      fun pindex => (pindex.nStakeModifier, pindex.getBlockTime) := by
  induction chain with
  | nil => rfl
  | cons pindex rest ih =>
    rw [getLastStakeModifier, find?_cons]
    cases pindex.generatedStakeModifier with
    | true => rfl
    | false => exact ih

/-- What `ComputeNextStakeModifier` decides since version 0.4. -/
theorem computeNextStakeModifier_cases (htime : isProtocolV04 env.params pindex.getBlockTime = true)
    (h : computeNextStakeModifier env stake rand lookup pindex ancestors =
      some (nStakeModifier, fGenerated)) :
    (ancestors = [] ∧ fGenerated = true) ∨
      ∃ last, ancestors.find? generatedStakeModifier = some last ∧
        ((fGenerated = true ∧ last.modifierEpoch stake < pindex.modifierEpoch stake) ∨
          (fGenerated = false ∧ nStakeModifier = last.nStakeModifier)) := by
  cases ancestors with
  | nil =>
    rw [computeNextStakeModifier] at h
    exact .inl ⟨rfl, (Prod.mk.inj (Option.some.inj h)).2.symm⟩
  | cons pindexPrev rest =>
    rw [computeNextStakeModifier, getLastStakeModifier_eq] at h
    cases hlast : (pindexPrev :: rest).find? generatedStakeModifier with
    | none => simp [hlast] at h
    | some last =>
      refine .inr ⟨last, rfl, ?_⟩
      simp only [hlast, Option.map_some] at h
      split_ifs at h with hprev hcurrent
      · obtain ⟨hmodifier, hflag⟩ := Prod.mk.inj (Option.some.inj h)
        exact .inr ⟨hflag.symm, hmodifier.symm⟩
      · obtain ⟨hmodifier, hflag⟩ := Prod.mk.inj (Option.some.inj h)
        exact .inr ⟨hflag.symm, hmodifier.symm⟩
      · obtain ⟨nStakeModifierNew, -, hnew⟩ := Option.map_eq_some_iff.mp h
        refine .inl ⟨(Prod.mk.inj hnew).2.symm, ?_⟩
        by_contra hle
        exact hcurrent ⟨Nat.le_of_not_lt hle, htime⟩

/-- Whether a modifier is generated depends on the ancestors and on the time only. -/
theorem generated_eq_of_computed {rand' : ℕ → ℕ} {lookup' : Uint256 → Option CBlockIndex}
    {pindex' : CBlockIndex} {nStakeModifier' : UInt64} {fGenerated' : Bool}
    (htime : pindex'.nTime = pindex.nTime)
    (h : computeNextStakeModifier env stake rand lookup pindex ancestors =
      some (nStakeModifier, fGenerated))
    (h' : computeNextStakeModifier env stake rand' lookup' pindex' ancestors =
      some (nStakeModifier', fGenerated')) : fGenerated' = fGenerated := by
  have hblock : pindex'.getBlockTime = pindex.getBlockTime := congrArg UInt32.toNat htime
  cases ancestors with
  | nil =>
    rw [computeNextStakeModifier] at h h'
    rw [← (Prod.mk.inj (Option.some.inj h)).2, ← (Prod.mk.inj (Option.some.inj h')).2]
  | cons pindexPrev rest =>
    rw [computeNextStakeModifier] at h h'
    rw [hblock] at h'
    cases hlast : getLastStakeModifier (pindexPrev :: rest) with
    | none => simp [hlast] at h
    | some last =>
      simp only [hlast] at h h'
      split_ifs at h h' with hprev hcurrent
      · exact (Prod.mk.inj (Option.some.inj h')).2.symm.trans (Prod.mk.inj (Option.some.inj h)).2
      · exact (Prod.mk.inj (Option.some.inj h')).2.symm.trans (Prod.mk.inj (Option.some.inj h)).2
      · obtain ⟨_, -, hnew⟩ := Option.map_eq_some_iff.mp h
        obtain ⟨_, -, hnew'⟩ := Option.map_eq_some_iff.mp h'
        exact (Prod.mk.inj hnew').2.symm.trans (Prod.mk.inj hnew).2

/-! ## What the check writes -/

/-- The entry of a block holds what the check computed for it. -/
structure CBlockIndex.Computed (env : Env) (stake : StakeRules) (ancestors : IndexChain)
    (pindex : CBlockIndex) : Prop where
  time : isProtocolV04 env.params pindex.getBlockTime = true
  modifier : ∃ rand lookup, computeNextStakeModifier env stake rand lookup pindex ancestors =
    some (pindex.nStakeModifier, pindex.generatedStakeModifier)

/-- A flag is set in two flag words together if it is in one. -/
theorem flag_or (mask nFlags nFlags' : UInt32) :
    ((nFlags ||| nFlags') &&& mask != 0) = ((nFlags &&& mask != 0) || (nFlags' &&& mask != 0)) := by
  have hzero : (nFlags ||| nFlags') &&& mask = 0 ↔ nFlags &&& mask = 0 ∧ nFlags' &&& mask = 0 := by
    rw [← UInt32.toBitVec_inj, ← UInt32.toBitVec_inj, ← UInt32.toBitVec_inj]
    simp only [UInt32.toBitVec_and, UInt32.toBitVec_or, BitVec.and_or_distrib_right]
    exact BitVec.or_eq_zero_iff
  rw [Bool.eq_iff_iff, Bool.or_eq_true, bne_iff_ne, bne_iff_ne, bne_iff_ne, ← not_and_or]
  exact not_congr hzero

/-- The check adds the flag of a generated modifier to those that the entry has, and sets
the modifier. -/
theorem stake_of_contextualChecks {kernel : Kernel}
    (hok : (peercoinContextualBlockChecks kernel ancestors false st).result = .ok ()) :
    ∃ nStakeModifier fGenerated,
      kernel.computeNextStakeModifier st.pindex ancestors = some (nStakeModifier, fGenerated) ∧
      (peercoinContextualBlockChecks kernel ancestors false st).state.pindex.nTime =
        st.pindex.nTime ∧
      (peercoinContextualBlockChecks kernel ancestors false st).state.pindex.nStakeModifier =
        nStakeModifier ∧
      (peercoinContextualBlockChecks kernel ancestors false
        st).state.pindex.generatedStakeModifier =
        (st.pindex.generatedStakeModifier || fGenerated) := by
  rcases @peercoinContextualBlockChecks_cases kernel ancestors st with ⟨failure, -, hfail⟩ |
    ⟨hashProofOfStake, nStakeModifier, fGenerated, nEntropy, _, hnext, hentropy, -, hwrite⟩
  · rw [hfail] at hok
    cases hok
  · obtain ⟨_, _, _, hnote⟩ := noteStake_cases hashProofOfStake st
    rw [hwrite, hnote]
    refine ⟨nStakeModifier, fGenerated, hnext, rfl, rfl, ?_⟩
    have hgenerated : ((if fGenerated then CBlockIndex.BLOCK_STAKE_MODIFIER else 0) &&&
        CBlockIndex.BLOCK_STAKE_MODIFIER != 0) = fGenerated := by
      cases fGenerated <;> rfl
    simp only [Outcome.pass, generatedStakeModifier, flag_or, hentropy, hgenerated,
      bne_self_eq_false, Bool.or_false]

/-- A later look at an entry, after other functions have written their own fields. -/
structure CBlockIndex.SameStake (pindex pindex' : CBlockIndex) : Prop where
  nTime : pindex'.nTime = pindex.nTime
  nFlags : pindex'.nFlags = pindex.nFlags
  nStakeModifier : pindex'.nStakeModifier = pindex.nStakeModifier

/-- A chain of entries that were processed by `PeercoinContextualBlockChecks` one after the
other, each when its ancestors had been.  The header of a block brings no flag but that of
a proof of stake, and the check may run again on an entry. -/
inductive ProcessedChain (env : Env) (stake : StakeRules) : IndexChain → Prop
  | nil : ProcessedChain env stake []
  | process {ancestors : IndexChain} {st : ConnectState} {view : StakeView}
      {g_txindex : Option TxIndex} {rand : ℕ → ℕ} {pindex : CBlockIndex}
      (hancestors : ProcessedChain env stake ancestors)
      (hflags : st.pindex.nFlags = 0 ∨ st.pindex.nFlags = CBlockIndex.BLOCK_PROOF_OF_STAKE)
      (htime : isProtocolV04 env.params st.pindex.getBlockTime = true)
      (hok : (peercoinContextualBlockChecks (stakeKernel env stake view g_txindex rand) ancestors
        false st).result = .ok ())
      (hsame : (peercoinContextualBlockChecks (stakeKernel env stake view g_txindex rand)
        ancestors false st).state.pindex.SameStake pindex) :
      ProcessedChain env stake (pindex :: ancestors)
  | again {ancestors : IndexChain} {st : ConnectState} {view : StakeView}
      {g_txindex : Option TxIndex} {rand : ℕ → ℕ} {pindex : CBlockIndex}
      (hchain : ProcessedChain env stake (st.pindex :: ancestors))
      (hok : (peercoinContextualBlockChecks (stakeKernel env stake view g_txindex rand) ancestors
        false st).result = .ok ())
      (hsame : (peercoinContextualBlockChecks (stakeKernel env stake view g_txindex rand)
        ancestors false st).state.pindex.SameStake pindex) :
      ProcessedChain env stake (pindex :: ancestors)

/-- What the check leaves behind, if the flag was not set before or was set rightly. -/
theorem computed_of_contextualChecks {view : StakeView} {g_txindex : Option TxIndex}
    (htime : isProtocolV04 env.params st.pindex.getBlockTime = true)
    (hflag : st.pindex.generatedStakeModifier = false ∨ st.pindex.Computed env stake ancestors)
    (hok : (peercoinContextualBlockChecks (stakeKernel env stake view g_txindex rand) ancestors
      false st).result = .ok ())
    (hsame : (peercoinContextualBlockChecks (stakeKernel env stake view g_txindex rand)
      ancestors false st).state.pindex.SameStake pindex) :
    pindex.Computed env stake ancestors := by
  obtain ⟨nStakeModifier, fGenerated, hnext, hnTime, hmodifier, hgenerated⟩ :=
    stake_of_contextualChecks hok
  have hblock : pindex.nTime = st.pindex.nTime := hsame.nTime.trans hnTime
  have hread : pindex.getBlockTime = st.pindex.getBlockTime := congrArg UInt32.toNat hblock
  have hflagged : pindex.generatedStakeModifier = fGenerated := by
    have hwritten : pindex.generatedStakeModifier =
        (st.pindex.generatedStakeModifier || fGenerated) := by
      rw [← hgenerated, generatedStakeModifier, hsame.nFlags]
      rfl
    rcases hflag with hunset | ⟨-, rand', lookup', hbefore⟩
    · rw [hwritten, hunset, Bool.false_or]
    · rw [hwritten, generated_eq_of_computed rfl hbefore hnext, Bool.or_self]
  refine ⟨hread ▸ htime, rand, view.lookup, ?_⟩
  rw [hflagged, hsame.nStakeModifier, hmodifier, ← hnext]
  -- the time is all that the next modifier reads of the entry
  cases ancestors with
  | nil => rfl
  | cons pindexPrev rest =>
    show computeNextStakeModifier env stake rand view.lookup pindex (pindexPrev :: rest) =
      computeNextStakeModifier env stake rand view.lookup st.pindex (pindexPrev :: rest)
    rw [computeNextStakeModifier, computeNextStakeModifier, hread]

theorem ProcessedChain.computed (h : ProcessedChain env stake chain) :
    ∀ newer pindex ancestors, chain = newer ++ pindex :: ancestors →
      pindex.Computed env stake ancestors := by
  induction h with
  | nil =>
    intro newer pindex ancestors heq
    exact absurd heq (by simp)
  | process hancestors hflags htime hok hsame ih =>
    rename_i st _ _ _ _
    have hunset : st.pindex.generatedStakeModifier = false := by
      unfold generatedStakeModifier
      rcases hflags with hzero | hstake
      · rw [hzero]
        rfl
      · rw [hstake]
        rfl
    intro newer pindex ancestors heq
    cases newer with
    | nil =>
      obtain ⟨rfl, rfl⟩ := cons.inj heq
      exact computed_of_contextualChecks htime (.inl hunset) hok hsame
    | cons head newer => exact ih newer pindex ancestors (cons.inj heq).2
  | again hchain hok hsame ih =>
    rename_i ancestors st _ _ _ _
    have hbefore := ih [] st.pindex ancestors rfl
    intro newer pindex older heq
    cases newer with
    | nil =>
      obtain ⟨rfl, rfl⟩ := cons.inj heq
      exact computed_of_contextualChecks hbefore.time (.inr hbefore) hok hsame
    | cons head newer =>
      refine ih (st.pindex :: newer) pindex older ?_
      rw [(cons.inj heq).2]
      rfl

/-! ## The schedule -/

/-- The intervals of the blocks that generated a modifier decrease from the nearest on. -/
theorem pairwise_modifierEpoch (h : ∀ newer pindex ancestors, chain = newer ++ pindex :: ancestors →
      pindex.Computed env stake ancestors) :
    (chain.filter generatedStakeModifier).Pairwise
      fun newer older => older.modifierEpoch stake < newer.modifierEpoch stake := by
  induction chain with
  | nil => exact .nil
  | cons pindex ancestors ih =>
    have hrest := ih fun newer other older heq => h (pindex :: newer) other older (by rw [heq]; rfl)
    rw [filter_cons]
    split_ifs with hgenerated
    · refine pairwise_cons.mpr ⟨?_, hrest⟩
      obtain ⟨htime, rand, lookup, hnext⟩ := h [] pindex ancestors rfl
      rw [hgenerated] at hnext
      rcases computeNextStakeModifier_cases htime hnext with
        ⟨rfl, -⟩ | ⟨last, hlast, ⟨-, hlater⟩ | ⟨hfalse, -⟩⟩
      · exact fun older holder => absurd holder (by simp)
      · -- the nearest of the older ones has the latest interval
        rw [← head?_filter] at hlast
        obtain ⟨others, hfilter⟩ := head?_eq_some_iff.mp hlast
        rw [hfilter] at hrest ⊢
        intro older holder
        rcases mem_cons.mp holder with rfl | hmem
        · exact hlater
        · exact ((pairwise_cons.mp hrest).1 older hmem).trans hlater
      · cases hfalse
    · exact hrest

/-- Along a chain the intervals of the blocks that generated a modifier increase, and every
other block has the modifier of the nearest ancestor that generated one. -/
theorem modifier_schedule (h : ProcessedChain env stake chain) :
    ((chain.reverse.filter CBlockIndex.generatedStakeModifier).map
        (CBlockIndex.modifierEpoch stake)).Pairwise (· < ·) ∧
      ∀ newer pindex ancestors, chain = newer ++ pindex :: ancestors →
        (∃ rand lookup, computeNextStakeModifier env stake rand lookup pindex ancestors =
          some (pindex.nStakeModifier, pindex.generatedStakeModifier)) ∧
        (pindex.generatedStakeModifier = false →
          ∃ last, ancestors.find? CBlockIndex.generatedStakeModifier = some last ∧
            pindex.nStakeModifier = last.nStakeModifier) := by
  constructor
  · rw [List.pairwise_map, List.filter_reverse, List.pairwise_reverse]
    exact pairwise_modifierEpoch h.computed
  · intro newer pindex ancestors heq
    obtain ⟨htime, rand, lookup, hnext⟩ := h.computed newer pindex ancestors heq
    refine ⟨⟨rand, lookup, hnext⟩, fun hnot => ?_⟩
    rw [hnot] at hnext
    rcases computeNextStakeModifier_cases htime hnext with
      ⟨-, htrue⟩ | ⟨last, hlast, ⟨htrue, -⟩ | ⟨-, hcarried⟩⟩
    · cases htrue
    · cases htrue
    · exact ⟨last, hlast, hcarried⟩

namespace SmallNet

/-- A hash function that gives every entry the checksum which the checkpoint for the
genesis block asks for. -/
def checkpointHash : Uint256 := BitVec.ofNat 256 (0xfd11f4e7 * 2 ^ 224)

def checkpointNode : Env :=
  { node false false with
    host := { host with hash256 := fun _ => checkpointHash }
    params := { params with hashGenesisBlock := checkpointHash } }

/-- The state in which a new block is checked. -/
def newState (nHeight : ℕ) (block : CBlock) : ConnectState :=
  stakeState [] (CBlockIndex.ofHeader checkpointHash nHeight block.toCBlockHeader) block

/-- The check of a new block, by a node that finds the genesis transaction in its index. -/
def checkNew (ancestors : IndexChain) (nHeight : ℕ) (block : CBlock) :
    Outcome ConnectState BlockFail Unit :=
  peercoinContextualBlockChecks
    (Patchcoin.stakeKernel checkpointNode stakeRules ⟨fun _ => none, []⟩
      (some { genesisTxIndex with findTxPosition := fun _ => some ⟨0, 1⟩ }) fun _ => 0)
    ancestors false (newState nHeight block)

/-- The genesis block as it is checked and connected, and a block that stakes one of its
outputs. -/
def checkedGenesis : CBlockIndex :=
  { (checkNew [] 0 genesisBlock).state.pindex with nMint := params.genesisValue }

def checkedStake : CBlockIndex :=
  (checkNew [checkedGenesis] 1 (mintedBlock 1700001500 ⟨checkpointHash, 0⟩)).state.pindex

/-- The genesis block generates a modifier; the block after it keeps that modifier, although
it lies in a later interval. -/
theorem checkedStake_schedule :
    [checkedStake, checkedGenesis].map CBlockIndex.generatedStakeModifier = [false, true] ∧
      (([checkedStake, checkedGenesis].reverse.filter CBlockIndex.generatedStakeModifier).map
        (CBlockIndex.modifierEpoch stakeRules)).Pairwise (· < ·) := by
  have hgenesis : ProcessedChain checkpointNode stakeRules [checkedGenesis] := by
    have hok : (checkNew [] 0 genesisBlock).result = .ok () := passed_iff.mp (by decide +kernel)
    have hsame : (checkNew [] 0 genesisBlock).state.pindex.SameStake checkedGenesis :=
      ⟨rfl, rfl, rfl⟩
    exact .process .nil (.inl rfl) (by decide +kernel) hok hsame
  have hchain : ProcessedChain checkpointNode stakeRules [checkedStake, checkedGenesis] := by
    have hok : (checkNew [checkedGenesis] 1
        (mintedBlock 1700001500 ⟨checkpointHash, 0⟩)).result = .ok () :=
      passed_iff.mp (by decide +kernel)
    exact .process hgenesis (.inr rfl) (by decide +kernel) hok ⟨rfl, rfl, rfl⟩
  exact ⟨by decide +kernel, (modifier_schedule hchain).1⟩

end SmallNet

end Patchcoin
