import Patchcoin.Chain.Trace
import Patchcoin.Stake.Orders

/-!
# Blocks of one stake

`PeercoinContextualBlockChecks` notes the stake of a block that passed under the time of
its header, but looks the stake of a new block up under the time of its coinstake.  A
coinstake of version 3 carries no time: it is zero once the block was read from the
network.  The stake of such a block is then looked up under a time at which none was noted.

The calls of a process, from `AcceptBlock` and from `ConnectBlock`, share the set of stakes
and nothing else that matters here.  `mem_seenAfter_iff` says what the set holds after any
calls; the duplicates that are found follow.
-/

namespace Patchcoin

/-- A call of `PeercoinContextualBlockChecks`, with the entry of the block. -/
structure StakeCall where
  kernel : Kernel
  ancestors : IndexChain
  fJustCheck : Bool
  pindex : CBlockIndex
  block : CBlock
  nTime_eq : pindex.nTime = block.nTime

namespace StakeCall

variable (seen : List (COutPoint × UInt32)) (call : StakeCall)

def state : ConnectState := stakeState seen call.pindex call.block

def outcome : Outcome ConnectState BlockFail Unit :=
  peercoinContextualBlockChecks call.kernel call.ancestors call.fJustCheck (call.state seen)

/-- The set of stakes after the call. -/
def seenAfter : List (COutPoint × UInt32) := (call.outcome seen).state.setStakeSeen

/-- The block passes, and not in a dry run. -/
def Passes : Prop := call.fJustCheck = false ∧ (call.outcome seen).result = .ok ()

/-- The proof of stake of the block is right, so that the test for duplicates comes next. -/
def ProvesStake : Prop :=
  call.block.isProofOfStake = true ∧ ∃ hashProofOfStake, call.kernel.checkProofOfStake
    call.ancestors (coinstake call.block) call.block.nBits
    (txTime (coinstake call.block) call.block) = .ok hashProofOfStake

end StakeCall

variable {key : COutPoint × UInt32} {start : List (COutPoint × UInt32)}

/-- The calls of a run, each with the set of stakes that the ones before it have left. -/
def PassedIn (calls : List StakeCall) (start : List (COutPoint × UInt32)) (call : StakeCall) :
    Prop :=
  ∃ before after, calls = before ++ call :: after ∧
    call.Passes (Run.after (fun seen call => call.seenAfter seen) before start)

/-- The test for duplicates: the entry holds the stake already, or it was seen. -/
def duplicateStake (seen : List (COutPoint × UInt32)) (pindex : CBlockIndex) (block : CBlock) :
    Bool :=
  (pindex.isProofOfStake && block.getProofOfStake.1 == pindex.prevoutStake) ||
    seen.contains block.getProofOfStake

/-! ## What the set holds -/

/-- A call adds the stake of a block that passes, and nothing else. -/
theorem StakeCall.mem_seenAfter_iff {seen : List (COutPoint × UInt32)} {call : StakeCall} :
    key ∈ call.seenAfter seen ↔ key ∈ seen ∨
      call.Passes seen ∧ call.block.isProofOfStake = true ∧ key = call.block.notedStake := by
  obtain ⟨kernel, ancestors, fJustCheck, pindex, block, htime⟩ := call
  unfold StakeCall.seenAfter StakeCall.Passes StakeCall.outcome StakeCall.state
  rcases @peercoinContextualBlockChecks_cases kernel ancestors (stakeState seen pindex block) with
    ⟨failure, -, hfail⟩ | ⟨hashProofOfStake, _, _, _, _, -, -, hdry, hwrite⟩
  · rw [hfail fJustCheck]
    simp [Outcome.fail, stakeState]
  · cases fJustCheck with
    | true =>
      rw [hdry]
      simp [Outcome.pass, stakeState]
    | false =>
      obtain ⟨_, _, _, hnote⟩ := noteStake_cases hashProofOfStake (stakeState seen pindex block)
      rw [hwrite, hnote]
      show key ∈ (if block.isProofOfStake = true then
        seen.insert (block.getProofOfStake.1, pindex.nTime) else seen) ↔ _
      rw [htime]
      split
      · next hstake =>
        rw [List.mem_insert_iff]
        simp [hstake, or_comm, Outcome.pass, CBlock.notedStake]
      · next hstake => simp [hstake]

theorem passedIn_nil_iff {call : StakeCall} : PassedIn [] start call ↔ False := by
  refine iff_of_false ?_ id
  rintro ⟨before, after, hcalls, -⟩
  exact absurd hcalls (by simp)

theorem passedIn_cons_iff {first call : StakeCall} {rest : List StakeCall} :
    PassedIn (first :: rest) start call ↔
      call = first ∧ first.Passes start ∨ PassedIn rest (first.seenAfter start) call := by
  constructor
  · rintro ⟨before, after, hcalls, hpasses⟩
    cases before with
    | nil =>
      obtain ⟨rfl, -⟩ := List.cons.inj hcalls
      exact .inl ⟨rfl, hpasses⟩
    | cons head before =>
      obtain ⟨rfl, hrest⟩ := List.cons.inj hcalls
      exact .inr ⟨before, after, hrest, hpasses⟩
  · rintro (⟨rfl, hpasses⟩ | ⟨before, after, rfl, hpasses⟩)
    · exact ⟨[], rest, rfl, hpasses⟩
    · exact ⟨first :: before, after, rfl, hpasses⟩

/-- After a run the set holds what it held, and the stakes of the blocks that passed. -/
theorem mem_seenAfter_iff {calls : List StakeCall} :
    key ∈ Run.after (fun seen call => call.seenAfter seen) calls start ↔
      key ∈ start ∨ ∃ call, PassedIn calls start call ∧ call.block.isProofOfStake = true ∧
        key = call.block.notedStake := by
  induction calls generalizing start with
  | nil => simp [passedIn_nil_iff]
  | cons first rest ih =>
    rw [Run.after_cons, ih, StakeCall.mem_seenAfter_iff, or_assoc]
    refine or_congr_right ?_
    simp only [passedIn_cons_iff]
    constructor
    · rintro (⟨hpasses, hstake, hkey⟩ | ⟨call, hcall, hstake, hkey⟩)
      · exact ⟨first, .inl ⟨rfl, hpasses⟩, hstake, hkey⟩
      · exact ⟨call, .inr hcall, hstake, hkey⟩
    · rintro ⟨call, (⟨rfl, hpasses⟩ | hcall), hstake, hkey⟩
      · exact .inl ⟨hpasses, hstake, hkey⟩
      · exact .inr ⟨call, hcall, hstake, hkey⟩

/-! ## Duplicates -/

/-- With a right proof of stake, the stake check is the test for duplicates. -/
theorem StakeCall.rejected_iff {seen : List (COutPoint × UInt32)} {call : StakeCall}
    (h : call.ProvesStake) :
    checkStake call.kernel call.ancestors (call.state seen) = .error .silent ↔
      duplicateStake seen call.pindex call.block = true := by
  obtain ⟨hstake, hashProofOfStake, hproof⟩ := h
  have hblock : (call.state seen).block = call.block := rfl
  have hpindex : (call.state seen).pindex = call.pindex := rfl
  have hset : (call.state seen).setStakeSeen = seen := rfl
  unfold checkStake
  rw [hblock, hpindex, hset, if_neg (by rw [hstake]; simp), hproof]
  dsimp only
  unfold duplicateStake
  rw [Bool.or_eq_true]
  split_ifs with hentry hseen
  · exact iff_of_true rfl (.inl hentry)
  · exact iff_of_true rfl (.inr hseen)
  · refine iff_of_false ?_ ?_
    · intro h
      cases h
    · rintro (h | h)
      · exact hentry h
      · exact hseen h

/-- The stake of a proof-of-stake block, as it is looked up. -/
theorem getProofOfStake_eq {block : CBlock} (h : block.isProofOfStake = true) :
    block.getProofOfStake = (block.getProofOfStake.1, (coinstake block).nTime) := by
  unfold CBlock.isProofOfStake at h
  unfold CBlock.getProofOfStake coinstake
  split at h
  · next first second rest hvtx =>
    obtain ⟨input, inputs, hvin⟩ : ∃ input inputs, second.vin = input :: inputs := by
      unfold CTransaction.isCoinStake at h
      split at h
      · exact ⟨_, _, ‹_›⟩
      · cases h
    rw [hvtx, if_pos h, hvin]
    rfl
  · cases h

/-- A block with the stake and the time of one that has passed is refused as a duplicate
exactly if its coinstake carries the time of the header, or its entry holds the stake
already, or a block with that stake has passed whose header has the time of the coinstake. -/
theorem duplicate_rejected_iff {calls : List StakeCall} {start : List (COutPoint × UInt32)}
    {first later : StakeCall} (hfirst : PassedIn calls start first)
    (hstake : first.block.isProofOfStake = true) (hlater : later.ProvesStake)
    (hprevout : later.block.getProofOfStake.1 = first.block.getProofOfStake.1)
    (htime : later.block.nTime = first.block.nTime) : checkStake later.kernel later.ancestors
        (later.state (Run.after (fun seen call => call.seenAfter seen) calls start)) =
      .error .silent ↔
    (coinstake later.block).nTime = later.block.nTime ∨
      later.pindex.isProofOfStake = true ∧
        later.pindex.prevoutStake = later.block.getProofOfStake.1 ∨
      (later.block.getProofOfStake.1, (coinstake later.block).nTime) ∈ start ∨
      ∃ other, PassedIn calls start other ∧ other.block.isProofOfStake = true ∧
        other.block.getProofOfStake.1 = later.block.getProofOfStake.1 ∧
        other.block.nTime = (coinstake later.block).nTime := by
  rw [StakeCall.rejected_iff hlater, duplicateStake, Bool.or_eq_true, Bool.and_eq_true,
    beq_iff_eq, List.contains_iff_mem, mem_seenAfter_iff, getProofOfStake_eq hlater.1]
  unfold CBlock.notedStake
  constructor
  · rintro (⟨hentry, hsame⟩ | hold | ⟨other, hother, hotherStake, hkey⟩)
    · exact .inr (.inl ⟨hentry, hsame.symm⟩)
    · exact .inr (.inr (.inl hold))
    · obtain ⟨hsame, hsameTime⟩ := Prod.mk.inj hkey
      exact .inr (.inr (.inr ⟨other, hother, hotherStake, hsame.symm, hsameTime.symm⟩))
  · rintro (hcoinstake | ⟨hentry, hsame⟩ | hold | ⟨other, hother, hotherStake, hsame, hsameTime⟩)
    · refine .inr (.inr ⟨first, hfirst, hstake, ?_⟩)
      rw [hcoinstake, htime, hprevout]
    · exact .inl ⟨hentry, hsame.symm⟩
    · exact .inr (.inl hold)
    · refine .inr (.inr ⟨other, hother, hotherStake, ?_⟩)
      rw [hsame, hsameTime]

namespace SmallNet

/-- The check of a block on top of the genesis block. -/
def genesisStakeCall (block : CBlock) : StakeCall where
  kernel := Patchcoin.stakeKernel (SmallNet.node false false) stakeRules
    (genesisIndex.stakeView genesisHash) (some genesisTxIndex) fun _ => 0
  ancestors := genesisIndex.chainOf genesisEntry
  fJustCheck := false
  pindex := (genesisIndex.newEntry hash256 block.toCBlockHeader).toCBlockIndex
  block := block
  nTime_eq := rfl

/-- A block like the minted one with another coinstake of version 3. -/
def mintedRival : CBlock :=
  { mkBlock 1 genesisHash 1700001000 [mkCoinstake (genesisPrevout 0) [genesisOut, genesisOut]]
      [] with
    nVersion := 6
    nBits := 0x207fffff
    nFlags := CBlockIndex.BLOCK_PROOF_OF_STAKE }

theorem exists_ok_of_isSome {ε α : Type} {result : Except ε α}
    (h : result.toOption.isSome = true) : ∃ value, result = .ok value := by
  cases result with
  | error failure => cases h
  | ok value => exact ⟨value, rfl⟩

theorem passes_genesisStakeCall {seen : List (COutPoint × UInt32)} {block : CBlock}
    (h : ((genesisStakeCall block).outcome seen).result.toOption.isSome = true) :
    (genesisStakeCall block).Passes seen :=
  ⟨rfl, (exists_ok_of_isSome h).choose_spec⟩

/-- Two blocks of one stake and one time, with coinstakes of version 3, pass both. -/
theorem minted_twice : mintedBlock 1700001000 (genesisPrevout 0) ≠ mintedRival ∧
      mintedRival.getProofOfStake.1 =
        (mintedBlock 1700001000 (genesisPrevout 0)).getProofOfStake.1 ∧
      mintedRival.nTime = (mintedBlock 1700001000 (genesisPrevout 0)).nTime ∧
      (coinstake mintedRival).OnWire ∧ (coinstake mintedRival).nVersion = 3 ∧
      (genesisStakeCall (mintedBlock 1700001000 (genesisPrevout 0))).Passes [] ∧
      (genesisStakeCall mintedRival).Passes
        ((genesisStakeCall (mintedBlock 1700001000 (genesisPrevout 0))).seenAfter []) := by
  refine ⟨by decide +kernel, by decide +kernel, by decide +kernel, fun _ => rfl, by decide +kernel,
    passes_genesisStakeCall (by decide +kernel), passes_genesisStakeCall (by decide +kernel)⟩

/-- The second of two rivals whose coinstakes carry the time of the block is refused. -/
theorem rival_rejected :
    checkStake (genesisStakeCall secondRival).kernel (genesisStakeCall secondRival).ancestors
      ((genesisStakeCall secondRival).state (Run.after (fun seen call => call.seenAfter seen)
        [genesisStakeCall firstRival] [])) = .error .silent := by
  have hfirst : PassedIn [genesisStakeCall firstRival] [] (genesisStakeCall firstRival) :=
    ⟨[], [], rfl, passes_genesisStakeCall (by decide +kernel)⟩
  have hproof : (genesisStakeCall secondRival).ProvesStake := by
    refine ⟨by decide +kernel, ?_⟩
    exact exists_ok_of_isSome (by decide +kernel)
  refine (duplicate_rejected_iff hfirst (by decide +kernel) hproof (by decide +kernel) rfl).mpr ?_
  exact .inl (by decide +kernel)

end SmallNet

end Patchcoin
