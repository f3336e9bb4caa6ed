import Patchcoin.Stake.Alike
import Patchcoin.SmallStake
import Mathlib.Data.Nat.Bitwise

/-!
# The flags of a header are not part of its hash

A peer that sends a header chooses its `nFlags`.  They are copied into the index
entry, and the stake check only adds bits to them.  Two nodes that receive one
block with different flags therefore end up with different entries, unless the
bits in which the flags differ are among those that the check writes: the entropy
bit and the generated bit go into the modifiers of later blocks, and all bits go
into the checksum.  `flags_irrelevant_iff` says exactly when nothing of this can be
seen, in the block itself or in any block that comes after it.
-/

namespace Patchcoin

/-- The stake state of an entry. -/
structure StakeData where
  nEntropyBit : ℕ
  fGeneratedStakeModifier : Bool
  nStakeModifier : UInt64
  nStakeModifierChecksum : UInt32
  deriving DecidableEq

def CBlockIndex.stakeData (pindex : CBlockIndex) : StakeData where
  nEntropyBit := pindex.getStakeEntropyBit
  fGeneratedStakeModifier := pindex.generatedStakeModifier
  nStakeModifier := pindex.nStakeModifier
  nStakeModifierChecksum := pindex.nStakeModifierChecksum

/-- The stake state of a block that has passed the stake check. -/
def StakeNode.stakeData (node : StakeNode) (hash : Uint256) : Option StakeData :=
  ((node.index hash).filter fun entry => entry.isValid BLOCK_VALID_TRANSACTIONS).map
    fun entry => entry.toCBlockIndex.stakeData

section

variable {env : Env} {stake : StakeRules} {node node' : StakeNode}

namespace StakeNode

theorem Alike.stakeData (h : node.Alike node') (hash : Uint256) :
    node.stakeData hash = node'.stakeData hash := by
  unfold StakeNode.stakeData
  cases hentry : node.index hash with
  | none => rw [(h.index.eq_none_iff hash).mp hentry]
  | some entry =>
    obtain ⟨entry', hentry', halike⟩ := h.index.exists_of_some hentry
    simp only [hentry', Option.filter_some, ← halike.isValid_eq]
    by_cases hvalid : entry.isValid BLOCK_VALID_TRANSACTIONS = true
    · have hmasked : ∀ pindex : CBlockIndex,
          (pindex.masked STAKE_FLAGS).stakeData = pindex.stakeData := by
        intro pindex
        simp only [CBlockIndex.stakeData, CBlockIndex.getStakeEntropyBit_masked,
          CBlockIndex.generatedStakeModifier_masked]
        rfl
      rw [if_pos hvalid, if_pos hvalid, Option.map_some, Option.map_some, ← hmasked,
        halike.flags hvalid, hmasked]
    · rw [if_neg hvalid, if_neg hvalid]

/-- The stake state of a block after its check. -/
theorem stakeData_accept {arrival : StakeArrival} {parent : IndexEntry}
    (hparent : node.parent? env arrival = some parent) (rand : ℕ → ℕ) :
    (node.accept env stake rand arrival).stakeData (arrival.hash env) =
      match node.check env stake rand arrival parent with
      | .error _ => none
      | .ok (pindex, _) => some pindex.stakeData := by
  have hindex : (node.accept env stake rand arrival).index (arrival.hash env) =
      some (node.entryAfter env arrival (node.check env stake rand arrival parent)) := by
    rw [(accept_of_some hparent rand).1]
    have hself := node.index.insert_self
      (node.entryAfter env arrival (node.check env stake rand arrival parent))
    rw [hashBlock_entryAfter] at hself
    exact hself
  unfold StakeNode.stakeData
  rw [hindex]
  cases hcheck : node.check env stake rand arrival parent with
  | error failure => simp [entryAfter]
  | ok checked =>
    obtain ⟨pindex, setStakeSeen⟩ := checked
    obtain ⟨-, hstatus⟩ := check_ok_kept hcheck
    have hvalid : ((node.fresh env arrival).accepted pindex).isValid
        BLOCK_VALID_TRANSACTIONS = true :=
      IndexEntry.isValid_accepted (by rw [hstatus]; rfl) (by rw [hstatus]; rfl)
    have hdata : ((node.fresh env arrival).accepted pindex).toCBlockIndex.stakeData =
        pindex.stakeData := by
      simp only [IndexEntry.accepted, CBlockIndex.received, CBlockIndex.raiseValidity]
      split <;> rfl
    simp only [entryAfter, Option.filter_some, hvalid, if_true, Option.map_some, hdata]

end StakeNode

variable {flags : UInt32}

/-! ## Single bits -/

theorem toNat_and_bit (flags : UInt32) (i : ℕ) (hi : i < 32) :
    (flags &&& UInt32.ofNat (2 ^ i)).toNat = 2 ^ i * (flags.toNat / 2 ^ i % 2) := by
  have hpow : 2 ^ i < 2 ^ 32 := Nat.pow_lt_pow_right (by norm_num) hi
  rw [UInt32.toNat_and, UInt32.toNat_ofNat_of_lt' hpow, Nat.and_two_pow, Nat.toNat_testBit,
    mul_comm]

theorem or_and_distrib (flags added mask : UInt32) :
    (flags ||| added) &&& mask = flags &&& mask ||| added &&& mask :=
  UInt32.toBitVec_inj.mp BitVec.and_or_distrib_right

theorem and_proofOfStake_of_ne_zero (h : flags &&& CBlockIndex.BLOCK_PROOF_OF_STAKE ≠ 0) :
    flags &&& CBlockIndex.BLOCK_PROOF_OF_STAKE = 1 := by
  have hbit : (flags &&& CBlockIndex.BLOCK_PROOF_OF_STAKE).toNat =
      2 ^ 0 * (flags.toNat / 2 ^ 0 % 2) :=
    toNat_and_bit flags 0 (by norm_num)
  have hne : (flags &&& CBlockIndex.BLOCK_PROOF_OF_STAKE).toNat ≠ 0 :=
    fun hzero => h (UInt32.toNat_inj.mp hzero)
  apply UInt32.toNat_inj.mp
  rw [hbit] at hne ⊢
  rw [pow_zero, one_mul, Nat.div_one] at hne ⊢
  have hlt := Nat.mod_lt flags.toNat (show 0 < 2 by norm_num)
  show flags.toNat % 2 = 1
  omega

/-- The meaningful flags agree if each of the three does. -/
theorem and_stakeFlags_eq {flags' : UInt32} (hpos : flags &&& CBlockIndex.BLOCK_PROOF_OF_STAKE =
      flags' &&& CBlockIndex.BLOCK_PROOF_OF_STAKE)
    (hentropy : ((flags &&& CBlockIndex.BLOCK_STAKE_ENTROPY) >>> 1).toNat =
      ((flags' &&& CBlockIndex.BLOCK_STAKE_ENTROPY) >>> 1).toNat)
    (hmodifier : (flags &&& CBlockIndex.BLOCK_STAKE_MODIFIER != 0) =
      (flags' &&& CBlockIndex.BLOCK_STAKE_MODIFIER != 0)) :
    flags &&& STAKE_FLAGS = flags' &&& STAKE_FLAGS := by
  have hbit : ∀ flags : UInt32,
      (flags &&& CBlockIndex.BLOCK_PROOF_OF_STAKE).toNat = flags.toNat % 2 ∧
      (flags &&& CBlockIndex.BLOCK_STAKE_ENTROPY).toNat = 2 * (flags.toNat / 2 % 2) ∧
      (flags &&& CBlockIndex.BLOCK_STAKE_MODIFIER).toNat = 4 * (flags.toNat / 4 % 2) ∧
      (flags &&& STAKE_FLAGS).toNat = flags.toNat % 8 := by
    intro flags
    refine ⟨?_, toNat_and_bit flags 1 (by norm_num), toNat_and_bit flags 2 (by norm_num), ?_⟩
    · have hfirst := toNat_and_bit flags 0 (by norm_num)
      rw [pow_zero, one_mul, Nat.div_one] at hfirst
      exact hfirst
    · exact Nat.and_two_pow_sub_one_eq_mod flags.toNat 3
  obtain ⟨hpos1, hentropy1, hmodifier1, hall1⟩ := hbit flags
  obtain ⟨hpos2, hentropy2, hmodifier2, hall2⟩ := hbit flags'
  have hparity : flags.toNat % 2 = flags'.toNat % 2 := by rw [← hpos1, ← hpos2, hpos]
  have hsecond : flags.toNat / 2 % 2 = flags'.toNat / 2 % 2 := by
    rw [UInt32.toNat_shiftRight, UInt32.toNat_shiftRight, hentropy1, hentropy2] at hentropy
    have hshift : ∀ n : ℕ, n >>> ((1 : UInt32).toNat % 32) = n / 2 := fun n => rfl
    rw [hshift, hshift] at hentropy
    omega
  have hthird : flags.toNat / 4 % 2 = flags'.toNat / 4 % 2 := by
    have hzero : ∀ flags : UInt32, (flags != 0) = decide (flags.toNat ≠ 0) := by
      intro flags
      by_cases heq : flags = 0
      · simp [heq]
      · have hne : flags.toNat ≠ 0 := fun hnat => heq (UInt32.toNat_inj.mp hnat)
        simp [heq, hne]
    rw [hzero, hzero, hmodifier1, hmodifier2, decide_eq_decide] at hmodifier
    omega
  apply UInt32.toNat_inj.mp
  rw [hall1, hall2]
  omega

/-! ## When flags are irrelevant -/

namespace StakeNode

variable (env stake)
variable {arrival : StakeArrival} {nFlags nFlags' : UInt32}

/-- The block is new and passes the stake check when it arrives with these flags. -/
def Adds (node : StakeNode) (arrival : StakeArrival) (nFlags : UInt32) : Prop :=
  node.stakeData (arrival.hash env) = none ∧
    (node.accept env stake (fun _ => 0) (arrival.withFlags nFlags)).stakeData
      (arrival.hash env) ≠ none

/-- Whichever of the two flag values a block arrives with, the stake state of every block
is the same, after any further blocks. -/
def FlagsIrrelevant (node : StakeNode) (arrival : StakeArrival) (nFlags nFlags' : UInt32) : Prop :=
  ∀ (rand rand' : ℕ → ℕ) (draws draws' : ℕ → ℕ → ℕ) (later : List StakeArrival) (hash : Uint256),
    ((node.accept env stake rand (arrival.withFlags nFlags)).run env stake draws
        later).stakeData hash =
      ((node.accept env stake rand' (arrival.withFlags nFlags')).run env stake draws'
        later).stakeData hash

/-- The bits that the check writes make the two flag values equal, or they agree in the
meaningful flags and their checksums collide. -/
def FlagsCoincide (node : StakeNode) (arrival : StakeArrival) (nFlags nFlags' : UInt32) : Prop :=
  ∃ parent found, node.parent? env arrival = some parent ∧
    node.verdict env stake (fun _ => 0) (arrival.withFlags nFlags) parent = .ok found ∧
      (nFlags ||| found.flags = nFlags' ||| found.flags ∨
        SameState env parent found nFlags nFlags')

variable {env stake}

theorem adds_iff : node.Adds env stake arrival nFlags ↔
      ∃ parent pindex setStakeSeen, node.parent? env arrival = some parent ∧
        node.check env stake (fun _ => 0) (arrival.withFlags nFlags) parent =
          .ok (pindex, setStakeSeen) := by
  unfold Adds
  cases hparent : node.parent? env arrival with
  | none =>
    have hsame := @accept_of_none env stake node (arrival.withFlags nFlags) hparent fun _ => 0
    rw [hsame]
    simp
  | some parent =>
    have hdata := @stakeData_accept env stake node (arrival.withFlags nFlags) parent hparent
      fun _ => 0
    have hnew : node.stakeData (arrival.hash env) = none := by
      simp [StakeNode.stakeData, (parent?_eq_some_iff.mp hparent).1]
    change (node.accept env stake (fun _ => 0) (arrival.withFlags nFlags)).stakeData
      (arrival.hash env) = _ at hdata
    rw [hdata]
    cases hcheck : node.check env stake (fun _ => 0) (arrival.withFlags nFlags) parent with
    | error failure => simp [hcheck]
    | ok checked =>
      obtain ⟨pindex, setStakeSeen⟩ := checked
      simp [hnew, hcheck]

/-- Random numbers play no role. -/
theorem accept_rand (node : StakeNode) (arrival : StakeArrival) (rand rand' : ℕ → ℕ) :
    node.accept env stake rand arrival = node.accept env stake rand' arrival := by
  have hkernel : node.kernel env stake rand arrival = node.kernel env stake rand' arrival := by
    have hnext : ∀ lookup, computeNextStakeModifier env stake rand lookup =
        computeNextStakeModifier env stake rand' lookup := by
      intro lookup
      funext pindex ancestors
      exact computeNextStakeModifier_rand env stake rand rand' lookup pindex ancestors
    simp only [kernel, stakeKernel, hnext]
  have hcheck : ∀ parent, node.check env stake rand arrival parent =
      node.check env stake rand' arrival parent := by
    intro parent
    rw [check, check, hkernel]
  unfold accept
  split
  · rfl
  · simp only [hcheck]

section

variable
    (hpos : nFlags &&& CBlockIndex.BLOCK_PROOF_OF_STAKE =
      nFlags' &&& CBlockIndex.BLOCK_PROOF_OF_STAKE)
include hpos

/-- A block that fails with both flag values leaves alike nodes behind. -/
theorem alike_of_not_adds (hfirst : ¬ node.Adds env stake arrival nFlags)
    (hsecond : ¬ node.Adds env stake arrival nFlags') :
    (node.accept env stake (fun _ => 0) (arrival.withFlags nFlags)).Alike
      (node.accept env stake (fun _ => 0) (arrival.withFlags nFlags')) := by
  cases hparent : node.parent? env arrival with
  | none =>
    rw [@accept_of_none env stake node (arrival.withFlags nFlags) hparent,
      @accept_of_none env stake node (arrival.withFlags nFlags') hparent]
    exact .refl node
  | some parent =>
    have herror : ∀ nFlags, ¬ node.Adds env stake arrival nFlags → ∃ failure,
        node.check env stake (fun _ => 0) (arrival.withFlags nFlags) parent = .error failure := by
      intro nFlags hnot
      cases hcheck : node.check env stake (fun _ => 0) (arrival.withFlags nFlags) parent with
      | error failure => exact ⟨failure, rfl⟩
      | ok checked => exact absurd (adds_iff.mpr ⟨parent, _, _, hparent, hcheck⟩) hnot
    obtain ⟨failure, hcheck⟩ := herror nFlags hfirst
    obtain ⟨failure', hcheck'⟩ := herror nFlags' hsecond
    have haccept :=
      @accept_of_some env stake node (arrival.withFlags nFlags) parent hparent fun _ => 0
    have haccept' :=
      @accept_of_some env stake node (arrival.withFlags nFlags') parent hparent fun _ => 0
    rw [hcheck] at haccept
    rw [hcheck'] at haccept'
    have hfresh : (node.fresh env (arrival.withFlags nFlags)).Alike
        (node.fresh env (arrival.withFlags nFlags')) := (Alike.refl node).fresh hpos env
    refine ⟨?_, ?_⟩
    · rw [haccept.1, haccept'.1]
      exact (BlockMap.Alike.refl node.index).insert hfresh.failed
    · rw [haccept.2, haccept'.2]
      rfl

/-- A block that passes with both flag values and gets the same stake state. -/
theorem sameState_of_stakeData {parent : IndexEntry} {found : StakeVerdict}
    (hdata : (node.checkedEntry env (arrival.withFlags nFlags) parent found).stakeData =
      (node.checkedEntry env (arrival.withFlags nFlags') parent found).stakeData) :
    SameState env parent found nFlags nFlags' := by
  obtain ⟨hentropy, hmodifier, -, hchecksum⟩ := StakeData.mk.inj hdata
  refine ⟨and_stakeFlags_eq ?_ hentropy hmodifier, hchecksum⟩
  show (nFlags ||| found.flags) &&& _ = (nFlags' ||| found.flags) &&& _
  rw [or_and_distrib, or_and_distrib, hpos]

end

/-- The flags of a header are irrelevant exactly if the block is refused with both
values, or if the check makes up for the difference. -/
theorem flags_irrelevant_iff (env : Env) (stake : StakeRules) (node : StakeNode)
    (arrival : StakeArrival) (nFlags nFlags' : UInt32)
    (hstake : nFlags &&& CBlockIndex.BLOCK_PROOF_OF_STAKE ≠ 0)
    (hstake' : nFlags' &&& CBlockIndex.BLOCK_PROOF_OF_STAKE ≠ 0) :
    node.FlagsIrrelevant env stake arrival nFlags nFlags' ↔
      (¬ node.Adds env stake arrival nFlags ∧ ¬ node.Adds env stake arrival nFlags') ∨
        node.FlagsCoincide env stake arrival nFlags nFlags' := by
  have hpos : nFlags &&& CBlockIndex.BLOCK_PROOF_OF_STAKE =
      nFlags' &&& CBlockIndex.BLOCK_PROOF_OF_STAKE := by
    rw [and_proofOfStake_of_ne_zero hstake, and_proofOfStake_of_ne_zero hstake']
  constructor
  · intro hirrelevant
    have hdata := hirrelevant (fun _ => 0) (fun _ => 0) (fun _ _ => 0) (fun _ _ => 0) []
      (arrival.hash env)
    by_cases hadds : node.Adds env stake arrival nFlags ∧ node.Adds env stake arrival nFlags'
    · right
      obtain ⟨parent, pindex, seen, hparent, hcheck⟩ := adds_iff.mp hadds.1
      obtain ⟨parent', pindex', seen', hparent', hcheck'⟩ := adds_iff.mp hadds.2
      rw [hparent, Option.some.injEq] at hparent'
      subst hparent'
      have hfirst := @stakeData_accept env stake node (arrival.withFlags nFlags) parent hparent
        fun _ => 0
      have hsecond := @stakeData_accept env stake node (arrival.withFlags nFlags') parent hparent
        fun _ => 0
      rw [hcheck] at hfirst
      rw [hcheck'] at hsecond
      have hsame : pindex.stakeData = pindex'.stakeData :=
        Option.some.inj (hfirst.symm.trans (hdata.trans hsecond))
      rw [check_eq] at hcheck hcheck'
      have hverdict := @Alike.verdict env stake node node nFlags' (arrival.withFlags nFlags)
        (.refl node) hpos parent parent hparent (.refl parent) (fun _ => 0) fun _ => 0
      change _ = node.verdict env stake (fun _ => 0) (arrival.withFlags nFlags') parent at hverdict
      rw [← hverdict] at hcheck'
      cases hfound : node.verdict env stake (fun _ => 0) (arrival.withFlags nFlags) parent with
      | error failure =>
        rw [hfound] at hcheck
        cases hcheck
      | ok found =>
        have hentries : (node.checkedEntry env (arrival.withFlags nFlags) parent found).stakeData =
            (node.checkedEntry env (arrival.withFlags nFlags') parent found).stakeData := by
          simp only [hfound] at hcheck hcheck'
          split at hcheck
          · split at hcheck'
            · rw [Except.ok.injEq, Prod.mk.injEq] at hcheck hcheck'
              rw [hcheck.1, hcheck'.1, hsame]
            · cases hcheck'
          · cases hcheck
        exact ⟨parent, found, hparent, hfound, .inr (sameState_of_stakeData hpos hentries)⟩
    · -- one stake state is absent, so that both are
      left
      have hiff : node.Adds env stake arrival nFlags ↔ node.Adds env stake arrival nFlags' := by
        unfold Adds
        rw [show (node.accept env stake (fun _ => 0) (arrival.withFlags nFlags)).stakeData
          (arrival.hash env) = _ from hdata]
        rfl
      rw [hiff, and_self] at hadds
      rw [hiff]
      exact ⟨hadds, hadds⟩
  · intro hcases rand rand' draws draws' later hash
    rw [accept_rand node _ rand fun _ => 0, accept_rand node _ rand' fun _ => 0]
    have halike : (node.accept env stake (fun _ => 0) (arrival.withFlags nFlags)).Alike
        (node.accept env stake (fun _ => 0) (arrival.withFlags nFlags')) := by
      rcases hcases with ⟨hfirst, hsecond⟩ | ⟨parent, found, hparent, hfound, hcoincide⟩
      · exact alike_of_not_adds hpos hfirst hsecond
      · have hsame : SameState env parent found nFlags nFlags' := by
          rcases hcoincide with heq | hsame
          · exact ⟨by rw [heq], by rw [flagChecksum, flagChecksum, heq]⟩
          · exact hsame
        refine @Alike.accept env stake node node nFlags' (arrival.withFlags nFlags) (.refl node)
          hpos _ (fun parent' found' hparent' hfound' => ?_) _
        cases hparent.symm.trans hparent'
        rw [hfound, Except.ok.injEq] at hfound'
        subst hfound'
        exact hsame
    exact (halike.run later draws draws').stakeData hash

end StakeNode

end

/-! ## On the small network -/

namespace SmallNet

/-- The check sets the entropy bit of this block, so that it may arrive with it. -/
theorem entropy_flag_irrelevant : (1 : UInt32) &&& CBlockIndex.BLOCK_PROOF_OF_STAKE ≠ 0 ∧
      (3 : UInt32) &&& CBlockIndex.BLOCK_PROOF_OF_STAKE ≠ 0 ∧
      genesisStakeNode.FlagsIrrelevant (node false false) stakeRules (stakeArrival 1700000010) 1
        3 := by
  refine ⟨by decide, by decide, ?_⟩
  apply (StakeNode.flags_irrelevant_iff _ _ _ _ 1 3 (by decide) (by decide)).mpr
  have htest : ((genesisStakeNode.verdict (node false false) stakeRules (fun _ => 0)
      ((stakeArrival 1700000010).withFlags 1) genesisEntry).toOption.any fun found =>
        1 ||| found.flags == 3 ||| found.flags) = true := by decide +kernel
  cases hfound : genesisStakeNode.verdict (node false false) stakeRules (fun _ => 0)
      ((stakeArrival 1700000010).withFlags 1) genesisEntry with
  | error failure =>
    rw [hfound] at htest
    cases htest
  | ok found =>
    rw [hfound, Except.toOption, Option.any_some] at htest
    exact .inr ⟨genesisEntry, found, stakeArrival_parent (by decide +kernel), hfound,
      .inl (by simpa using htest)⟩

/-- A block that does not generate a modifier arrives with the flag that says so: the
flag stays, and the checksum is another one. -/
theorem generated_flag_stays : (1 : UInt32) &&& CBlockIndex.BLOCK_PROOF_OF_STAKE ≠ 0 ∧
      (5 : UInt32) &&& CBlockIndex.BLOCK_PROOF_OF_STAKE ≠ 0 ∧
      ¬ genesisStakeNode.FlagsIrrelevant (node false false) stakeRules (stakeArrival 1700000010)
        1 5 := by
  refine ⟨by decide, by decide, fun hirrelevant => ?_⟩
  have hdata := hirrelevant (fun _ => 0) (fun _ => 0) (fun _ _ => 0) (fun _ _ => 0) []
    ((stakeArrival 1700000010).hash (node false false))
  exact absurd hdata (by decide +kernel)

end SmallNet

end Patchcoin
