import Patchcoin.Net.Holdings
import Patchcoin.Lib.Run
import Patchcoin.SmallPeers

/-!
# Block signatures

`CheckBlock` remembers in the block object that its tests have passed before it looks
at the signature.  A second `CheckBlock` on an object that failed because of its
signature therefore passes (`checkBlock_again_iff`).

Every object goes through at least two calls: `ProcessNewBlock` and `AcceptBlock` both
make one, but the second is only reached if the first has passed.  There is one way to
make a call before these two and to go on after it has failed: `FillBlock` runs
`CheckBlock` on a block that was put together from a compact block, and `BLOCKTXN`
takes the failure for one that `ProcessNewBlock` will find again.

So the invariant along a run is that waiting blocks remember nothing, and that written
blocks have a valid signature; it is kept by every message but a reconstruction that
fails by its signature only.
-/

namespace Patchcoin

open Outcome

variable {env : Env} {rules : HeaderRules} {stake : StakeRules} {address : Uint256 → ℕ}
variable {failure : BlockFail} {block : CBlock} {call : NetCall} {st : NetState}
  {key : Option Uint256} {we : WaitElement}

/-- The signature of a block is valid, unless it is the genesis block. -/
def Signed (env : Env) (block : CBlock) : Prop :=
  block.getHash env.host.hash256 ≠ env.params.hashGenesisBlock →
    checkBlockSignature env block = true

instance (env : Env) (block : CBlock) : Decidable (Signed env block) :=
  inferInstanceAs (Decidable (_ → _))

theorem Signed.congr {block' : CBlock} (h : block'.content = block.content) :
    Signed env block' ↔ Signed env block := by
  have hsigned (block : CBlock) : Signed env block ↔ Signed env block.content := Iff.rfl
  rw [hsigned, h, ← hsigned]

/-! ## CheckBlock, twice -/

/-- A block that passes the tests is the genesis block or proof of stake, so that its
signature is asked for. -/
theorem signed_of_checkBlock (hfresh : block.fChecked = false)
    (h : (checkBlock env true true true block).result = .ok ()) : Signed env block := by
  obtain ⟨htests, hsignature⟩ := (checkBlock_ok_iff hfresh).mp h
  obtain ⟨hkind, -, -⟩ := (checkBlockTests_ok_iff block).mp htests
  intro hgenesis
  have hstake : block.isProofOfStake = true := by
    by_contra hnot
    rw [Bool.not_eq_true] at hnot
    unfold checkBlockKind at hkind
    simp [CBlock.isProofOfWork, hnot, hgenesis] at hkind
  exact hsignature (by rw [hstake, Bool.true_or])

/-- After tests that failed, the object remembers at most its Merkle root. -/
theorem checkBlock_of_tests_error (hfresh : block.fChecked = false)
    (htests : (checkBlockTests env true true block).result = .error failure) :
    (checkBlock env true true true block).result = .error failure ∧
      (checkBlock env true true true block).state = (checkBlockTests env true true block).state ∧
      (checkBlock env true true true block).state.fChecked = false := by
  have hcheck : checkBlock env true true true block =
      ⟨(checkBlockTests env true true block).state, .error failure⟩ := by
    rw [checkBlock_of_not_fChecked hfresh, andThen_of_error htests]
  rw [hcheck]
  refine ⟨rfl, rfl, ?_⟩
  rcases @checkBlockTests_cases env true true block with hsame | hroot
  · rw [hsame]
    exact hfresh
  · rw [hroot]
    exact hfresh

theorem checkMerkleRoot_of_error (h : (checkMerkleRoot env block).result = .error failure) :
    (checkMerkleRoot env block).state = block := by
  unfold checkMerkleRoot at h ⊢
  dsimp only at h ⊢
  split_ifs at h ⊢
  · rfl
  · rfl
  · rfl
  · cases h

/-- Tests that failed fail again on the object they left behind. -/
theorem checkBlockTests_again (h : (checkBlockTests env true true
      (checkBlockTests env true true block).state).result = .ok ()) :
    (checkBlockTests env true true block).result = .ok () := by
  obtain ⟨hkind, hroot, hbody⟩ := (checkBlockTests_ok_iff _).mp h
  have hcontent := @content_checkBlockTests env true true block
  have hkind' : checkBlockKind env true block = .ok () := by
    have hsame (block : CBlock) :
        checkBlockKind env true block = checkBlockKind env true block.content := rfl
    rw [hsame, ← hcontent, ← hsame]
    exact hkind
  refine (checkBlockTests_ok_iff block).mpr ⟨hkind', fun _ => ?_, ?_⟩
  · cases hmerkle : (checkMerkleRoot env block).result with
    | ok value => rfl
    | error failure =>
      -- the root was not remembered, and is computed again
      have hstate : (checkBlockTests env true true block).state = block := by
        unfold checkBlockTests
        rw [andThen_of_ok (by exact hkind'), if_pos rfl,
          andThen_of_error (by exact hmerkle)]
        exact checkMerkleRoot_of_error hmerkle
      rw [hstate] at hroot
      rw [← hmerkle]
      exact hroot rfl
  · rw [← checkBlockBody_congr hcontent]
    exact hbody

/-- A second `CheckBlock` on an object that failed the first passes exactly if only the
signature was wrong. -/
theorem checkBlock_again_iff (h : (checkBlock env true true true block).result ≠ .ok ()) :
    (checkBlock env true true true (checkBlock env true true true block).state).result = .ok () ↔
      (checkBlockTests env true true block).result = .ok () ∧ ¬ SignaturePasses env block := by
  have hfresh : block.fChecked = false := by
    by_contra hchecked
    rw [Bool.not_eq_false] at hchecked
    apply h
    unfold checkBlock
    rw [hchecked]
    rfl
  cases htests : (checkBlockTests env true true block).result with
  | error failure =>
    obtain ⟨-, hstate, hfresh'⟩ := checkBlock_of_tests_error hfresh htests
    refine iff_of_false ?_ (by simp)
    intro hagain
    have hpassed := ((checkBlock_ok_iff hfresh').mp hagain).1
    rw [hstate] at hpassed
    rw [checkBlockTests_again hpassed] at htests
    cases htests
  | ok value =>
    have hunsigned : ¬ SignaturePasses env block :=
      fun hsigned => h ((checkBlock_ok_iff hfresh).mpr ⟨htests, hsigned⟩)
    refine iff_of_true ?_ ⟨rfl, hunsigned⟩
    have hstate : (checkBlock env true true true block).state = testedBlock env block := by
      rw [checkBlock_of_tests_ok hfresh htests, if_neg hunsigned]
      rfl
    rw [hstate]
    rfl

/-! ## Reconstructions -/

/-- The missing transactions complete a block that passes all tests but for its
signature. -/
def UnsignedFill (env : Env) (partialBlock : PartiallyDownloadedBlock) (txn : List CTransaction) :
    Prop :=
  ∃ vtx, fillTransactions partialBlock.txn_available txn = some vtx ∧
    (checkBlockTests env true true (partialBlock.assemble vtx)).result = .ok () ∧
    ¬ SignaturePasses env (partialBlock.assemble vtx)

theorem signed_of_fills {partialBlock : PartiallyDownloadedBlock} {txn : List CTransaction}
    (hfills : Fills env partialBlock txn block) (hfill : ¬ UnsignedFill env partialBlock txn)
    (h : (checkBlock env true true true block).result = .ok ()) : Signed env block := by
  -- the object is what the first `CheckBlock` left behind
  obtain ⟨vtx, hvtx, hblock⟩ : ∃ vtx, fillTransactions partialBlock.txn_available txn = some vtx ∧
      block = (checkBlock env true true true (partialBlock.assemble vtx)).state := by
    unfold Fills fillBlock at hfills
    split at hfills
    · rcases hfills with hfills | hfills
      · cases hfills
      · cases hfills
    · split at hfills
      · rcases hfills with hfills | hfills
        · cases hfills
        · cases hfills
      · next vtx hvtx =>
        refine ⟨vtx, hvtx, ?_⟩
        rcases hfills with hfills | hfills
        · exact (Option.some.inj (congrArg Prod.fst hfills)).symm
        · exact (Option.some.inj (congrArg Prod.fst hfills)).symm
  have hfresh : (partialBlock.assemble vtx).fChecked = false := rfl
  subst hblock
  by_cases hfirst : (checkBlock env true true true (partialBlock.assemble vtx)).result = .ok ()
  · rw [Signed.congr (content_checkBlock _)]
    exact signed_of_checkBlock hfresh hfirst
  · obtain ⟨htests, hunsigned⟩ := (checkBlock_again_iff hfirst).mp h
    exact absurd ⟨vtx, hvtx, htests, hunsigned⟩ hfill

/-! ## Runs -/

/-- What a node holds: written and activated blocks have valid signatures, and blocks
that wait remember no check. -/
structure SignedHoldings (env : Env) (holdings : Holdings) : Prop where
  files : ∀ block ∈ holdings.files, Signed env block
  activated : ∀ block ∈ holdings.activated, Signed env block
  waiting : ∀ pair ∈ holdings.waiting, pair.2.pblock.fChecked = false

theorem Extends.signed {old new : List CBlock} (h : Extends block old new)
    (hblock : Signed env block) (hold : ∀ block ∈ old, Signed env block) :
    ∀ block ∈ new, Signed env block := by
  rcases h with rfl | ⟨object, hcontent, rfl⟩
  · exact hold
  · intro other hother
    rcases List.mem_cons.mp hother with rfl | hmem
    · exact (Signed.congr hcontent).mpr hblock
    · exact hold other hmem

/-- `ProcessBlock` keeps the invariant, if a block that passes `CheckBlock` is signed. -/
theorem SignedHoldings.processes {old new : Holdings} (hold : SignedHoldings env old)
    (h : Processes env block old new)
    (hblock : (checkBlock env true true true block).result = .ok () → Signed env block) :
    SignedHoldings env new := by
  rcases h with rfl | ⟨hpassed, hwaiting, hfiles, hactivated⟩
  · exact hold
  · exact ⟨hfiles.signed (hblock hpassed) hold.files,
      hactivated.signed (hblock hpassed) hold.activated, hwaiting ▸ hold.waiting⟩

theorem SignedHoldings.eraseWait (h : SignedHoldings env st.holdings) (key : Option Uint256) :
    SignedHoldings env (st.eraseWait key).holdings :=
  ⟨h.files, h.activated, fun pair hpair => h.waiting pair (List.mem_of_mem_filter hpair)⟩

theorem mem_of_findWait {queue : WaitQueue} (h : findWait key queue = some we) :
    ∃ pair ∈ queue, pair.2 = we := by
  unfold findWait at h
  rw [Option.map_eq_some_iff] at h
  obtain ⟨pair, hfind, hwe⟩ := h
  exact ⟨pair, List.mem_of_find?_eq_some hfind, hwe⟩

/-- The loop selects blocks of the queue. -/
theorem mem_of_nextWait_select {nTimeNow : ℕ} (h : nextWait nTimeNow st = .select key we) :
    ∃ pair ∈ st.mapBlocksWait, pair.2 = we := by
  have hscan (index : BlockMap) (queue : WaitQueue)
      (h : scanWait index nTimeNow queue = .select key we) : ∃ pair ∈ queue, pair.2 = we := by
    induction queue with
    | nil => cases h
    | cons pair rest ih =>
      obtain ⟨key', we'⟩ := pair
      have hlater (h : scanWait index nTimeNow rest = .select key we) :
          ∃ pair ∈ (key', we') :: rest, pair.2 = we := by
        obtain ⟨pair, hpair, hwe⟩ := ih h
        exact ⟨pair, .tail _ hpair, hwe⟩
      unfold scanWait at h
      split at h
      · cases h
      · split at h
        · cases h
        · split at h
          · exact hlater h
          · split at h
            · cases h
              exact ⟨_, .head _, rfl⟩
            · split at h
              · cases h
              · exact hlater h
  unfold nextWait at h
  split at h
  · exact hscan _ _ h
  · split at h
    · next hfind =>
      cases h
      exact mem_of_findWait hfind
    · exact hscan _ _ h

theorem SignedHoldings.drainWait {min_pow_checked : Bool} {fuel processed : ℕ}
    (h : SignedHoldings env st.holdings) : SignedHoldings env
      (drainWait env rules stake call min_pow_checked fuel processed st).state.holdings := by
  induction fuel generalizing processed st with
  | zero => exact h
  | succ fuel ih =>
    unfold Patchcoin.drainWait
    split
    · exact h
    · exact h
    · next key we _ => exact ih (h.eraseWait key)
    · next key we _ => exact ih (h.eraseWait key)
    · next key we hselect =>
      obtain ⟨pair, hpair, hwe⟩ := mem_of_nextWait_select hselect
      have hfresh : we.pblock.fChecked = false := hwe ▸ h.waiting pair hpair
      refine andThen_invariant
        (P := fun next : NetState => SignedHoldings env next.holdings) ?_ ?_
      · exact (h.eraseWait key).processes (holdings_processBlock ..)
          (signed_of_checkBlock hfresh)
      · intro _ _ hnext
        exact ih hnext

/-- `IsBlockMutated` leaves `fChecked` as it is. -/
theorem fChecked_mutation (index : BlockMap) (block : CBlock) :
    (mutation env index block).1.fChecked = block.fChecked := by
  have hmerkle (block : CBlock) : (checkMerkleRoot env block).state.fChecked = block.fChecked := by
    rcases checkMerkleRoot_cases block with h | h
    · rw [h]
    · rw [h]
  have hwitness (block : CBlock) (expect : Bool) :
      (checkWitnessMalleation env block expect).state.fChecked = block.fChecked := by
    rcases @checkWitnessMalleation_cases env block expect with h | h
    · rw [h]
    · rw [h]
  unfold mutation
  split
  · rfl
  · unfold isBlockMutated
    dsimp only
    split
    · exact hmerkle block
    · split
      · exact hmerkle block
      · rw [hwitness, hmerkle]

theorem SignedHoldings.enqueue (h : SignedHoldings env st.holdings)
    (hfresh : block.fChecked = false) (nTimeNow : ℕ) :
    SignedHoldings env (st.enqueue address nTimeNow block).holdings := by
  refine ⟨h.files, h.activated, fun pair hpair => ?_⟩
  rcases mem_insertWait hpair with rfl | hmem
  · exact hfresh
  · exact h.waiting pair hmem

theorem SignedHoldings.blockMessage (h : SignedHoldings env st.holdings)
    (hfresh : block.fChecked = false) :
    SignedHoldings env (blockMessage env rules stake address call block st).state.holdings := by
  unfold Patchcoin.blockMessage
  dsimp only
  split
  · exact h
  · split
    · exact h
    · refine andThen_invariant
        (P := fun next : NetState => SignedHoldings env next.holdings) ?_ ?_
      · rw [holdings_takeIn]
        exact h
      · intro admitted _ hnext
        cases admitted with
        | false => exact hnext
        | true =>
          refine SignedHoldings.drainWait (SignedHoldings.enqueue hnext ?_ _)
          rw [fChecked_mutation]
          exact hfresh

/-- A message completes a block that fails by its signature only. -/
def ReconstructsUnsigned (env : Env) (node : NetNode) (turn : Turn) : Prop :=
  match turn.message with
  | .block _ => False
  | .cmpctBlock cmpctblock => UnsignedFill env (turn.call.initData cmpctblock).2 []
  | .blockTxn blockhash txn => ∃ partialBlock,
      ((node.st.awaken turn).requestFrom blockhash turn.call.peer).bind
        QueuedBlock.partialBlock = some partialBlock ∧ UnsignedFill env partialBlock txn

/-- Every other message keeps the invariant. -/
theorem SignedHoldings.turn (node : NetNode) (turn : Turn)
    (h : SignedHoldings env node.st.holdings) (hturn : ¬ ReconstructsUnsigned env node turn) :
    SignedHoldings env (node.turn env rules stake address turn).st.holdings := by
  have hawake : SignedHoldings env (node.st.awaken turn).holdings := by
    rw [NetState.holdings_awaken]
    exact h
  unfold NetNode.turn
  cases node.stop with
  | some stop => exact h
  | none =>
    unfold ReconstructsUnsigned at hturn
    cases hmessage : turn.message with
    | block block => exact SignedHoldings.blockMessage hawake rfl
    | cmpctBlock cmpctblock =>
      rw [hmessage] at hturn
      show SignedHoldings env (cmpctBlock env rules stake turn.call cmpctblock
        (node.st.awaken turn)).state.holdings
      rcases (@handles_cmpctBlock env rules stake turn.call cmpctblock
        (node.st.awaken turn)).holdings with hsame | ⟨block, hfills, hprocesses⟩
      · rw [hsame]
        exact hawake
      · exact hawake.processes hprocesses (signed_of_fills hfills hturn)
    | blockTxn blockhash txn =>
      rw [hmessage] at hturn
      show SignedHoldings env (blockTxn env rules stake turn.call blockhash txn
        (node.st.awaken turn)).state.holdings
      rcases
        (@handles_blockTxn env rules stake turn.call blockhash txn (node.st.awaken turn)).holdings
        with hsame | ⟨block, ⟨partialBlock, hpart, hfills⟩, hprocesses⟩
      · rw [hsame]
        exact hawake
      · refine hawake.processes hprocesses (signed_of_fills hfills fun hfill => ?_)
        exact hturn ⟨partialBlock, hpart, hfill⟩

/-- In a run in which no message completes a block that fails by its signature only, every
block that is written to disk or handed on to be connected has a valid signature.  An
object on which `CheckBlock` has failed passes it later exactly if only its signature was
wrong. -/
theorem blocks_signed (man : ChainMan) (turns : List Turn)
    (hturns : Run.Each (NetNode.turn env rules stake address)
      (fun node turn => ¬ ReconstructsUnsigned env node turn) turns
      (NetNode.start { man with blockFiles := [] })) :
    Run.Always (NetNode.turn env rules stake address)
        (fun node => ∀ block ∈ node.st.man.blockFiles ++ node.st.activated, Signed env block)
        turns (NetNode.start { man with blockFiles := [] }) ∧
      ∀ block, (checkBlock env true true true block).result ≠ .ok () →
        ((checkBlock env true true true
            (checkBlock env true true true block).state).result = .ok () ↔
          (checkBlockTests env true true block).result = .ok () ∧
            ¬ SignaturePasses env block) := by
  have hstart : SignedHoldings env (NetNode.start { man with blockFiles := [] }).st.holdings :=
    ⟨fun _ h => (by cases h), fun _ h => (by cases h), fun _ h => (by cases h)⟩
  refine ⟨?_, fun block hfailed => checkBlock_again_iff hfailed⟩
  refine Run.Always.imp ?_ (Run.always_of_each
    (P := fun node : NetNode => SignedHoldings env node.st.holdings) SignedHoldings.turn hstart
    hturns)
  intro node hnode block hblock
  rcases List.mem_append.mp hblock with hfile | hactivated
  · exact hnode.files block hfile
  · exact hnode.activated block hactivated

/-- A compact block with its signature arrives, and then its transactions, and it is written. -/
theorem SmallNet.signed_block_written :
    (Run.after (NetNode.turn (SmallNet.node false false) SmallNet.headerRules SmallNet.stakeRules
        fun _ => 0) (SmallNet.compactTurns SmallNet.compactedBlock.vchBlockSig)
        (NetNode.start { SmallNet.genesisMan with
          blockFiles := [] })).st.man.blockFiles.length = 1 ∧
      Run.Always (NetNode.turn (SmallNet.node false false) SmallNet.headerRules
        SmallNet.stakeRules fun _ => 0)
        (fun node => ∀ block ∈ node.st.man.blockFiles ++ node.st.activated,
          Signed (SmallNet.node false false) block)
        (SmallNet.compactTurns SmallNet.compactedBlock.vchBlockSig)
        (NetNode.start { SmallNet.genesisMan with blockFiles := [] }) := by
  refine ⟨by decide +kernel, (blocks_signed SmallNet.genesisMan _ ?_).1⟩
  refine ⟨?_, ?_, trivial⟩
  · -- nothing can be filled in before the transactions are there
    rintro ⟨vtx, hfill, -⟩
    cases hfill
  · rintro ⟨partialBlock, hpartial, vtx, hfill, -, hunsigned⟩
    have hsigned : ∀ partialBlock ∈ (((NetNode.turn (SmallNet.node false false)
          SmallNet.headerRules SmallNet.stakeRules (fun _ => 0)
          (NetNode.start { SmallNet.genesisMan with blockFiles := [] })
          (SmallNet.turnOf [] (.cmpctBlock ⟨SmallNet.compactedBlock.toCBlockHeader,
            SmallNet.compactedBlock.vchBlockSig, []⟩))).st.awaken (SmallNet.turnOf []
          (.blockTxn (SmallNet.compactedBlock.getHash SmallNet.hash256)
            SmallNet.compactedBlock.vtx))).requestFrom
          (SmallNet.compactedBlock.getHash SmallNet.hash256) 1).bind QueuedBlock.partialBlock,
        ∀ vtx ∈ fillTransactions partialBlock.txn_available SmallNet.compactedBlock.vtx,
          SignaturePasses (SmallNet.node false false) (partialBlock.assemble vtx) := by
      decide +kernel
    exact hunsigned (hsigned partialBlock hpartial vtx hfill)

/-- A compact block with a wrong signature, and then its transactions. -/
theorem SmallNet.unsigned_block_written :
    ¬ Run.Always (NetNode.turn (SmallNet.node false false) SmallNet.headerRules
        SmallNet.stakeRules fun _ => 0)
      (fun node => ∀ block ∈ node.st.man.blockFiles ++ node.st.activated,
        Signed (SmallNet.node false false) block)
      (SmallNet.compactTurns [9])
      (NetNode.start { SmallNet.genesisMan with blockFiles := [] }) := by
  intro h
  exact absurd h.last (by decide +kernel)

end Patchcoin
