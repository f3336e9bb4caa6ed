import Patchcoin.Net.Holdings
import Patchcoin.Lib.Run
import Patchcoin.SmallPeers

/-!
# Null pointers in the handler of blocks

The handler reads the entry of the parent of a block in two places.  For a block that
was not requested it asks whether the parent is valid, and does not ask first whether
there is a parent.  A block that was requested skips that test and goes into the queue
under the null pointer; the loop over the queue then reads the keys.

The null pointer is the first key of the map, so that the scan meets it before any
other key (`NullFirst`).  Only the block that waits for the entry that was the tip at
the first message is processed before the scan.  So a null key that is not too old is
read in the very message that put it there, unless processing that one block ends the
handler with an exception, after which the next message finds the null key.
-/

namespace Patchcoin

open List Outcome

variable {env : Env} {rules : HeaderRules} {stake : StakeRules} {address : Uint256 → ℕ}
variable {index : BlockMap} {min_pow_checked : Bool} {block : CBlock} {call : NetCall}
  {st : NetState} {queue : WaitQueue} {fuel nTimeNow processed : ℕ}

/-! ## The null key -/

def NoNull (queue : WaitQueue) : Prop := ∀ pair ∈ queue, pair.1 ≠ none

/-- The null pointer can only be the first key. -/
def NullFirst (queue : WaitQueue) : Prop := NoNull queue.tail

/-- The first key is the null pointer, and its block has not waited for too long. -/
def HeadNull (nTimeNow : ℕ) (queue : WaitQueue) : Prop :=
  ∃ we rest, queue = (none, we) :: rest ∧ nTimeNow ≤ we.time + 60

/-- A scan will not come upon the null pointer. -/
def Harmless (nTimeNow : ℕ) (queue : WaitQueue) : Prop :=
  NullFirst queue ∧ ¬ HeadNull nTimeNow queue

theorem NoNull.sublist {queue' : WaitQueue} (h : NoNull queue) (hsub : queue'.Sublist queue) :
    NoNull queue' := fun pair hpair => h pair (hsub.subset hpair)

theorem NoNull.nullFirst (h : NoNull queue) : NullFirst queue :=
  h.sublist (tail_sublist queue)

theorem NoNull.harmless (h : NoNull queue) (nTimeNow : ℕ) : Harmless nTimeNow queue := by
  refine ⟨h.nullFirst, ?_⟩
  rintro ⟨we, rest, rfl, -⟩
  exact h (none, we) (.head _) rfl

/-- Without a null pointer in front there is none at all. -/
theorem NullFirst.noNull_cons {hash : Uint256} {we : WaitElement} {rest : WaitQueue}
    (h : NullFirst ((some hash, we) :: rest)) : NoNull ((some hash, we) :: rest) := by
  intro pair hpair
  rcases mem_cons.mp hpair with rfl | hrest
  · simp
  · exact h pair hrest

theorem NullFirst.filter (h : NullFirst queue) (keep : Option Uint256 × WaitElement → Bool) :
    NullFirst (queue.filter keep) := by
  cases queue with
  | nil => exact h
  | cons pair rest =>
    have hrest : NoNull (rest.filter keep) := NoNull.sublist h filter_sublist
    cases hkeep : keep pair with
    | true =>
      rw [filter_cons_of_pos hkeep]
      exact hrest
    | false =>
      rw [filter_cons_of_neg (by simp [hkeep])]
      exact hrest.nullFirst

/-- Taking a key out of the queue does not bring a null pointer to light. -/
theorem Harmless.erase (h : Harmless nTimeNow queue) (key : Option Uint256) :
    Harmless nTimeNow (queue.filter fun pair => pair.1 != key) := by
  refine ⟨h.1.filter _, ?_⟩
  rintro ⟨we, rest, hqueue, htime⟩
  cases queue with
  | nil => cases hqueue
  | cons pair tail =>
    obtain ⟨first, found⟩ := pair
    cases hkeep : first != key with
    | true =>
      rw [filter_cons_of_pos (by simpa using hkeep)] at hqueue
      cases hqueue
      exact h.2 ⟨we, tail, rfl, htime⟩
    | false =>
      rw [filter_cons_of_neg (by simpa using hkeep)] at hqueue
      have hnone : ((none, we) : Option Uint256 × WaitElement) ∈
          tail.filter fun pair => pair.1 != key := by
        rw [hqueue]
        exact .head _
      exact h.1 _ (mem_of_mem_filter hnone) rfl

/-- The null pointer is put in front. -/
theorem insertWait_none {we : WaitElement} {queue : WaitQueue} (h : NullFirst queue) :
    ∃ rest, insertWait address none we queue = (none, we) :: rest ∧ NoNull rest := by
  cases queue with
  | nil => exact ⟨[], rfl, by simp [NoNull]⟩
  | cons first rest =>
    obtain ⟨key, found⟩ := first
    cases key with
    | none => exact ⟨rest, rfl, h⟩
    | some hash => exact ⟨(some hash, found) :: rest, rfl, h.noNull_cons⟩

/-- A pointer that is not null is put behind a null pointer. -/
theorem insertWait_some {hash : Uint256} {we : WaitElement} {queue : WaitQueue}
    (h : NullFirst queue) : NullFirst (insertWait address (some hash) we queue) ∧
      ∀ nTimeNow, HeadNull nTimeNow (insertWait address (some hash) we queue) ↔
        HeadNull nTimeNow queue := by
  have hnoNull {queue : WaitQueue} (h : NoNull queue) :
      NoNull (insertWait address (some hash) we queue) := by
    intro pair hpair
    rcases mem_insertWait hpair with rfl | hmem
    · simp
    · exact h pair hmem
  cases queue with
  | nil =>
    refine ⟨(hnoNull h).nullFirst, fun nTimeNow => ?_⟩
    exact iff_of_false ((hnoNull h).harmless nTimeNow).2 (NoNull.harmless h nTimeNow).2
  | cons first rest =>
    obtain ⟨key, found⟩ := first
    cases key with
    | none =>
      have hbehind : insertWait address (some hash) we ((none, found) :: rest) =
          (none, found) :: insertWait address (some hash) we rest := by
        simp [insertWait, keyAddress]
      rw [hbehind]
      refine ⟨hnoNull h, fun nTimeNow => ?_⟩
      constructor
      · rintro ⟨we', rest', hqueue, htime⟩
        cases hqueue
        exact ⟨found, rest, rfl, htime⟩
      · rintro ⟨we', rest', hqueue, htime⟩
        cases hqueue
        exact ⟨found, _, rfl, htime⟩
    | some other =>
      have hinsert := hnoNull h.noNull_cons
      refine ⟨hinsert.nullFirst, fun nTimeNow => ?_⟩
      exact iff_of_false (hinsert.harmless nTimeNow).2 (h.noNull_cons.harmless nTimeNow).2

/-! ## The loop -/

theorem scanWait_ne_nullPointer (h : Harmless nTimeNow queue) :
    scanWait index nTimeNow queue ≠ .nullPointer := by
  have hnoNull (queue : WaitQueue) (h : NoNull queue) :
      scanWait index nTimeNow queue ≠ .nullPointer := by
    induction queue with
    | nil => simp [scanWait]
    | cons pair rest ih =>
      obtain ⟨key, we⟩ := pair
      have hrest : NoNull rest := h.sublist (sublist_cons_self ..)
      cases key with
      | none => exact absurd rfl (h (none, we) (.head _))
      | some hash =>
        unfold scanWait
        split
        · simp
        · dsimp only
          split
          · exact ih hrest
          · split
            · simp
            · split
              · simp
              · exact ih hrest
  cases queue with
  | nil => simp [scanWait]
  | cons pair rest =>
    obtain ⟨key, we⟩ := pair
    cases key with
    | none =>
      have hold : we.time + 60 < nTimeNow := by
        by_contra hnot
        exact h.2 ⟨we, rest, rfl, Nat.le_of_not_lt hnot⟩
      simp [scanWait, hold]
    | some hash => exact hnoNull _ h.1.noNull_cons

theorem scanWait_headNull (h : HeadNull nTimeNow queue) :
    scanWait index nTimeNow queue = .nullPointer := by
  obtain ⟨we, rest, rfl, htime⟩ := h
  simp [scanWait, Nat.not_lt_of_le htime]

/-- The block that waits for the entry that was once the tip is processed before the
scan. -/
def firstRound (env : Env) (rules : HeaderRules) (stake : StakeRules) (call : NetCall)
    (min_pow_checked : Bool) (st : NetState) : Outcome NetState Stop Unit :=
  match findWait (some (st.pindexLastAccepted.getD st.man.tip)) st.mapBlocksWait with
  | none => .pass st
  | some we =>
    let hash := we.pblock.getHash env.host.hash256
    processBlock env rules stake (call.processing 0) (st.isBlockRequested hash) min_pow_checked
      we.pblock ((st.eraseWait (some (st.pindexLastAccepted.getD st.man.tip))).removeBlockRequest
        hash call.peer)

theorem pindexLastAccepted_processBlock (processing : Processing) (force min_pow : Bool)
    (block : CBlock) (st : NetState) :
    (processBlock env rules stake processing force min_pow block st).state.pindexLastAccepted =
      st.pindexLastAccepted := by
  unfold processBlock
  dsimp only
  split
  · rw [state_pass]
    split <;> rfl
  · split
    · rfl
    · rw [state_pass]
      split <;> rfl

theorem mapBlocksWait_processBlock (processing : Processing) (force min_pow : Bool)
    (block : CBlock) (st : NetState) :
    (processBlock env rules stake processing force min_pow block st).state.mapBlocksWait =
      st.mapBlocksWait :=
  (@holdings_processBlock env rules stake processing force min_pow block st).waiting_eq

/-- A queue without a null pointer within reach is worked off without reading one. -/
theorem drainWait_harmless (h : Harmless call.nTimeNow st.mapBlocksWait) :
    (drainWait env rules stake call min_pow_checked fuel processed st).result ≠
      .error .nullPointer := by
  induction fuel generalizing processed st with
  | zero => simp [drainWait]
  | succ fuel ih =>
    have hnext : nextWait call.nTimeNow st ≠ .nullPointer := by
      unfold nextWait
      split
      · exact scanWait_ne_nullPointer h
      · split
        · simp
        · exact scanWait_ne_nullPointer h
    unfold drainWait
    split
    · simp
    · next hnull => exact absurd hnull hnext
    · next key we _ => exact ih (h.erase key)
    · next key we _ => exact ih (h.erase key)
    · next key we _ =>
      dsimp only
      intro hnull
      unfold andThen at hnull
      split at hnull
      · refine ih ?_ hnull
        rw [mapBlocksWait_processBlock]
        exact h.erase key
      · next stop hstop =>
        cases hnull
        exact absurd (processBlock_error hstop) (by simp [FromProcessing])

theorem findWait_erase (key : Option Uint256) (queue : WaitQueue) :
    findWait key (queue.filter fun pair => pair.1 != key) = none := by
  unfold findWait
  rw [Option.map_eq_none_iff, find?_eq_none]
  intro pair hpair
  have hne := (mem_filter.mp hpair).2
  simpa using hne

/-- A null pointer that is within reach is read, if the first round passes. -/
theorem drainWait_headNull_iff {last : Uint256} (hlast : st.pindexLastAccepted = some last)
    (h : HeadNull call.nTimeNow st.mapBlocksWait) :
    (drainWait env rules stake call min_pow_checked (fuel + 2) 0 st).result =
        .error .nullPointer ↔
      (firstRound env rules stake call min_pow_checked st).result = .ok () := by
  unfold drainWait firstRound
  rw [hlast, Option.getD_some]
  cases hfind : findWait (some last) st.mapBlocksWait with
  | none =>
    have hscan : nextWait call.nTimeNow st = .nullPointer := by
      unfold nextWait
      rw [hlast]
      dsimp only
      rw [hfind]
      exact scanWait_headNull h
    rw [hscan]
    simp
  | some we =>
    have hselect : nextWait call.nTimeNow st = .select (some last) we := by
      unfold nextWait
      rw [hlast]
      dsimp only
      rw [hfind]
    rw [hselect]
    dsimp only
    generalize hprocess : processBlock env rules stake (call.processing 0)
      (st.isBlockRequested (we.pblock.getHash env.host.hash256)) min_pow_checked we.pblock
      ((st.eraseWait (some last)).removeBlockRequest (we.pblock.getHash env.host.hash256)
        call.peer) = processed
    cases hresult : processed.result with
    | error stop =>
      rw [andThen_of_error hresult]
      refine iff_of_false ?_ (by simp)
      intro hnull
      cases hnull
      rw [← hprocess] at hresult
      exact absurd (processBlock_error hresult) (by simp [FromProcessing])
    | ok value =>
      -- the second round finds no block for the old tip, and scans
      have hwait : processed.state.mapBlocksWait =
          st.mapBlocksWait.filter fun pair => pair.1 != some last := by
        rw [← hprocess, mapBlocksWait_processBlock]
        rfl
      have hold : processed.state.pindexLastAccepted = some last := by
        rw [← hprocess, pindexLastAccepted_processBlock]
        exact hlast
      have hhead : HeadNull call.nTimeNow processed.state.mapBlocksWait := by
        obtain ⟨found, rest, hqueue, htime⟩ := h
        rw [hwait, hqueue, filter_cons_of_pos (by simp)]
        exact ⟨found, _, rfl, htime⟩
      have hscan : nextWait call.nTimeNow processed.state = .nullPointer := by
        unfold nextWait
        rw [hold]
        dsimp only
        rw [hwait, findWait_erase, ← hwait]
        exact scanWait_headNull hhead
      rw [andThen_of_ok hresult]
      unfold drainWait
      rw [hscan]
      simp

/-! ## The handler -/

/-- The handler asks whether the parent of a block is valid, and there is no parent. -/
def ReadsNullParent (env : Env) (call : NetCall) (block : CBlock) (st : NetState) : Prop :=
  st.isBlockRequested (block.getHash env.host.hash256) = false ∧
    (overheated (st.temperature call.addr) = false ∨ env.params.network = .test) ∧
    st.man.index block.hashPrevBlock = none

/-- The block is taken into the queue, and the null pointer is or was put there, too; the
scan reads it if the first round passes. -/
def ReadsNullKey (env : Env) (rules : HeaderRules) (stake : StakeRules) (address : Uint256 → ℕ)
    (call : NetCall) (block : CBlock) (st : NetState) : Prop :=
  (takeIn env call block st).result = .ok true ∧
    (st.man.index block.hashPrevBlock = none ∨ HeadNull call.nTimeNow st.mapBlocksWait) ∧
    (firstRound env rules stake call (enoughWork rules st.man block)
      ((takeIn env call block st).state.enqueue address call.nTimeNow block)).result = .ok ()

theorem takeIn_nullPointer_iff :
    (takeIn env call block st).result = .error .nullPointer ↔
      ReadsNullParent env call block st := by
  unfold takeIn ReadsNullParent
  cases hrequested : st.isBlockRequested (block.getHash env.host.hash256) with
  | true => simp
  | false =>
    unfold unrequested
    simp only [Bool.false_eq_true, if_false, true_and]
    by_cases hstop : (overheated (st.temperature call.addr) && env.params.network != .test) = true
    · rw [if_pos hstop]
      rw [Bool.and_eq_true, bne_iff_ne] at hstop
      simp [hstop.1, hstop.2]
    · rw [if_neg hstop]
      have hgo : overheated (st.temperature call.addr) = false ∨ env.params.network = .test := by
        by_contra hnot
        rw [not_or, Bool.not_eq_false] at hnot
        exact hstop (by simpa using hnot)
      have hman (t : Int32) : (st.setTemperature call.addr t).man = st.man := rfl
      rw [hman]
      cases hparent : st.man.index block.hashPrevBlock with
      | none => simp [hgo]
      | some prev_block =>
        dsimp only
        split <;> simp

theorem takeIn_error {stop : Stop} (h : (takeIn env call block st).result = .error stop) :
    stop = .nullPointer := by
  unfold takeIn unrequested at h
  dsimp only at h
  split at h
  · cases h
  · split at h
    · cases h
    · split at h
      · cases h
        rfl
      · split at h
        · cases h
        · cases h

/-- A block in the queue keeps the null pointer in front, and it is in reach if it was
before or if the block has no parent. -/
theorem nullFirst_enqueue {st : NetState} (h : NullFirst st.mapBlocksWait) (nTimeNow : ℕ)
    (block : CBlock) : NullFirst (st.enqueue address nTimeNow block).mapBlocksWait ∧
      (HeadNull nTimeNow (st.enqueue address nTimeNow block).mapBlocksWait ↔
        st.man.index block.hashPrevBlock = none ∨ HeadNull nTimeNow st.mapBlocksWait) := by
  unfold NetState.enqueue
  cases hparent : st.man.index block.hashPrevBlock with
  | none =>
    obtain ⟨rest, hqueue, hrest⟩ := @insertWait_none address ⟨block, nTimeNow⟩ _ h
    simp only [Option.map_none]
    rw [hqueue]
    exact ⟨hrest, iff_of_true ⟨_, rest, rfl, Nat.le_add_right ..⟩ (.inl trivial)⟩
  | some prev_block =>
    obtain ⟨hfirst, hhead⟩ := @insertWait_some address block.hashPrevBlock ⟨block, nTimeNow⟩ _ h
    refine ⟨hfirst, (hhead nTimeNow).trans ?_⟩
    simp

/-- What makes the handler of blocks read a null pointer. -/
theorem blockMessage_nullPointer_iff (hfirst : NullFirst st.mapBlocksWait) :
    (blockMessage env rules stake address call block st).result = .error .nullPointer ↔
      call.loadingBlocks = false ∧ (mutation env st.man.index block).2 = false ∧
        (ReadsNullParent env call (mutation env st.man.index block).1 st ∨
          ReadsNullKey env rules stake address call (mutation env st.man.index block).1 st) := by
  unfold blockMessage
  by_cases hloading : call.loadingBlocks = true
  · simp [hloading]
  · rw [if_neg hloading]
    rw [Bool.not_eq_true] at hloading
    generalize mutation env st.man.index block = checked
    obtain ⟨block', mutated⟩ := checked
    cases mutated with
    | true => simp
    | false =>
      have hman := @man_takeIn env call block' st
      have hwait := @mapBlocksWait_takeIn env call block' st
      simp only [hloading, true_and, Bool.false_eq_true, if_false]
      cases htaken : (takeIn env call block' st).result with
      | error stop =>
        have hstop := takeIn_error htaken
        subst hstop
        rw [andThen_of_error htaken]
        simp [takeIn_nullPointer_iff.mp htaken]
      | ok admitted =>
        have hparent : ¬ ReadsNullParent env call block' st := by
          intro hreads
          rw [takeIn_nullPointer_iff.mpr hreads] at htaken
          cases htaken
        rw [andThen_of_ok htaken]
        simp only [hparent, false_or]
        unfold ReadsNullKey
        rw [htaken]
        cases admitted with
        | false => simp
        | true =>
          rw [← hwait] at hfirst
          obtain ⟨hfirst', hhead⟩ := @nullFirst_enqueue address _ hfirst call.nTimeNow block'
          rw [hman, hwait] at hhead
          simp only [if_true, true_and]
          rw [← hhead]
          by_cases hnull : HeadNull call.nTimeNow
              ((takeIn env call block' st).state.enqueue address call.nTimeNow
                block').mapBlocksWait
          · -- the null key is an element of the queue, so that there are two rounds
            obtain ⟨fuel, hfuel⟩ : ∃ fuel, ((takeIn env call block' st).state.enqueue address
                call.nTimeNow block').mapBlocksWait.length + 1 = fuel + 2 := by
              obtain ⟨we, rest, hqueue, -⟩ := hnull
              rw [hqueue]
              exact ⟨rest.length, rfl⟩
            rw [hfuel, drainWait_headNull_iff rfl hnull]
            simp [hnull]
          · simp only [hnull, false_and, iff_false]
            exact drainWait_harmless ⟨hfirst', hnull⟩

/-! ## Runs -/

theorem nullFirst_drainWait (h : NullFirst st.mapBlocksWait) :
    NullFirst
      (drainWait env rules stake call min_pow_checked fuel processed st).state.mapBlocksWait := by
  induction fuel generalizing processed st with
  | zero => exact h
  | succ fuel ih =>
    unfold drainWait
    split
    · exact h
    · exact h
    · exact ih (h.filter _)
    · exact ih (h.filter _)
    · refine andThen_invariant
        (P := fun next : NetState => NullFirst next.mapBlocksWait) ?_ ?_
      · rw [mapBlocksWait_processBlock]
        exact h.filter _
      · intro _ _ hnext
        exact ih hnext

theorem nullFirst_blockMessage (h : NullFirst st.mapBlocksWait) :
    NullFirst (blockMessage env rules stake address call block st).state.mapBlocksWait := by
  unfold blockMessage
  dsimp only
  split
  · exact h
  · split
    · exact h
    · refine andThen_invariant
        (P := fun next : NetState => NullFirst next.mapBlocksWait) ?_ ?_
      · rw [mapBlocksWait_takeIn]
        exact h
      · intro admitted _ hnext
        cases admitted with
        | false => exact hnext
        | true => exact nullFirst_drainWait (nullFirst_enqueue hnext ..).1

theorem mapBlocksWait_awaken (st : NetState) (turn : Turn) :
    (st.awaken turn).mapBlocksWait = st.mapBlocksWait :=
  congrArg Holdings.waiting (st.holdings_awaken turn)

/-- The null pointer stays in front in every run. -/
theorem nullFirst_turn (node : NetNode) (turn : Turn) (h : NullFirst node.st.mapBlocksWait) :
    NullFirst (node.turn env rules stake address turn).st.mapBlocksWait := by
  have hawake : NullFirst (node.st.awaken turn).mapBlocksWait := by
    rw [mapBlocksWait_awaken]
    exact h
  unfold NetNode.turn
  cases node.stop with
  | some stop => exact h
  | none =>
    cases turn.message with
    | block block => exact nullFirst_blockMessage hawake
    | cmpctBlock cmpctblock =>
      exact (handles_cmpctBlock turn.call cmpctblock _).waiting_eq.symm ▸ hawake
    | blockTxn blockhash txn =>
      exact (handles_blockTxn turn.call blockhash txn _).waiting_eq.symm ▸ hawake

/-- What makes a node read a null pointer when it handles a message. -/
def ReadsNull (env : Env) (rules : HeaderRules) (stake : StakeRules) (address : Uint256 → ℕ)
    (node : NetNode) (turn : Turn) : Prop :=
  node.stop = none ∧ ∃ block, turn.message = .block block ∧
    turn.call.loadingBlocks = false ∧
    (mutation env (node.st.awaken turn).man.index block.content).2 = false ∧
    (ReadsNullParent env turn.call
        (mutation env (node.st.awaken turn).man.index block.content).1 (node.st.awaken turn) ∨
      ReadsNullKey env rules stake address turn.call
        (mutation env (node.st.awaken turn).man.index block.content).1 (node.st.awaken turn))

theorem turn_nullPointer_iff {node : NetNode} {turn : Turn}
    (hfirst : NullFirst node.st.mapBlocksWait) (hnode : node.stop ≠ some .nullPointer) :
    (node.turn env rules stake address turn).stop ≠ some .nullPointer ↔
      ¬ ReadsNull env rules stake address node turn := by
  have hawake : NullFirst (node.st.awaken turn).mapBlocksWait := by
    rw [mapBlocksWait_awaken]
    exact hfirst
  have hstop (result : Except Stop Unit) :
      stopAfter result = some .nullPointer ↔ result = .error .nullPointer := by
    rcases result with stop | ⟨⟩
    · cases stop <;> simp [stopAfter]
    · simp [stopAfter]
  rw [not_iff_not]
  unfold NetNode.turn ReadsNull
  cases hgoing : node.stop with
  | some stop =>
    rw [hgoing] at hnode
    simpa [hgoing] using hnode
  | none =>
    rw [hstop]
    cases turn.message with
    | block block =>
      show (blockMessage env rules stake address turn.call block.content
        (node.st.awaken turn)).result = .error .nullPointer ↔ _
      rw [blockMessage_nullPointer_iff hawake]
      simp
    | cmpctBlock cmpctblock =>
      refine iff_of_false ?_ (by simp)
      intro h
      exact (handles_cmpctBlock ..).stopped _ h rfl
    | blockTxn blockhash txn =>
      refine iff_of_false ?_ (by simp)
      intro h
      exact absurd ((handles_blockTxn ..).stopped _ h) (by simp [FromProcessing])

/-- In a run from the start of a node no message makes it read a null pointer exactly if
no block message meets `ReadsNull` in the state it arrives in. -/
theorem never_nullPointer_iff (man : ChainMan) (turns : List Turn) :
    Run.Always (NetNode.turn env rules stake address) (fun node => node.stop ≠ some .nullPointer)
        turns (NetNode.start man) ↔
      Run.Each (NetNode.turn env rules stake address)
        (fun node turn => ¬ ReadsNull env rules stake address node turn) turns
        (NetNode.start man) := by
  have hempty : NullFirst (NetNode.start man).st.mapBlocksWait := by
    intro pair hpair
    cases hpair
  refine Run.always_iff_each (I := fun node : NetNode => NullFirst node.st.mapBlocksWait)
    nullFirst_turn ?_ hempty (by simp [NetNode.start])
  intro node turn hfirst hnode
  exact turn_nullPointer_iff hfirst hnode

/-- Blocks with an unknown parent, one that was not requested and one that was. -/
theorem SmallNet.orphan_nullPointer :
    ¬ Run.Always (NetNode.turn (SmallNet.node false false) SmallNet.headerRules
        SmallNet.stakeRules fun _ => 0) (fun node => node.stop ≠ some .nullPointer)
      [SmallNet.orphanTurn []] (NetNode.start SmallNet.genesisMan) ∧
    ¬ Run.Always (NetNode.turn (SmallNet.node false false) SmallNet.headerRules
        SmallNet.stakeRules fun _ => 0) (fun node => node.stop ≠ some .nullPointer)
      [SmallNet.orphanTurn [(1, SmallNet.orphan.getHash SmallNet.hash256)]]
      (NetNode.start SmallNet.genesisMan) := by
  constructor
  · intro h
    exact h.last (by decide +kernel)
  · intro h
    exact h.last (by decide +kernel)

end Patchcoin
