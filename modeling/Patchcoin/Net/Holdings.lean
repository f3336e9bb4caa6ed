import Patchcoin.Net.BlockMessage
import Patchcoin.Chain.AcceptSteps

/-!
# What the handlers do with blocks

A node holds blocks in three places: on disk, in the queue of blocks that wait, and,
for a moment, as the object that is handed to `ActivateBestChain`.  The handlers
write these places only through `ProcessBlock`, and the handler of `BLOCK` also puts
blocks into the queue and takes them out.

`Processes` says what `ProcessBlock` can do to the holdings: nothing, or the block
passed `CheckBlock` and was added in one place or the other.  The lemmas below say
which block objects each handler gives to `ProcessBlock`.
-/

namespace Patchcoin

open List Outcome

/-- The blocks that a node holds. -/
structure Holdings where
  files : List CBlock
  waiting : WaitQueue
  activated : List CBlock

def NetState.holdings (st : NetState) : Holdings :=
  ⟨st.man.blockFiles, st.mapBlocksWait, st.activated⟩

/-- The list is the same, or an object with the content of the block was added. -/
def Extends (block : CBlock) (old new : List CBlock) : Prop :=
  new = old ∨ ∃ object : CBlock, object.content = block.content ∧ new = object :: old

/-- What `ProcessBlock` can do with a block. -/
def Processes (env : Env) (block : CBlock) (old new : Holdings) : Prop :=
  new = old ∨ ((checkBlock env true true true block).result = .ok () ∧
    new.waiting = old.waiting ∧ Extends block old.files new.files ∧
    Extends block old.activated new.activated)

variable {env : Env} {rules : HeaderRules} {stake : StakeRules} {address : Uint256 → ℕ}

theorem Processes.waiting_eq {block : CBlock} {old new : Holdings}
    (h : Processes env block old new) : new.waiting = old.waiting := by
  rcases h with rfl | ⟨-, hwaiting, -⟩
  · rfl
  · exact hwaiting

namespace NetState

@[simp] theorem holdings_setTemperature (st : NetState) (addr : NetAddr) (nPoSTemperature : Int32) :
    (st.setTemperature addr nPoSTemperature).holdings = st.holdings := rfl

/-- Headers are accepted without a block. -/
theorem holdings_headers {st : NetState} {man : ChainMan} {addr : NetAddr} {nPoSTemperature : Int32}
    (h : man.blockFiles = st.man.blockFiles) :
    ({ st with man }.setTemperature addr nPoSTemperature).holdings = st.holdings := by
  unfold NetState.holdings
  simp [NetState.setTemperature, h]

@[simp] theorem holdings_removeBlockRequest (st : NetState) (hash : Uint256)
    (from_peer : Option NodeId) :
    (st.removeBlockRequest hash from_peer).holdings = st.holdings := rfl

@[simp] theorem holdings_setPartial (st : NetState) (hash : Uint256) (peer : NodeId)
    (partialBlock : PartiallyDownloadedBlock) :
    (st.setPartial hash peer partialBlock).holdings = st.holdings := rfl

@[simp] theorem holdings_request (st : NetState) (peer : NodeId) (hash : Uint256) :
    (st.request peer hash).holdings = st.holdings := by
  unfold request
  split <;> rfl

@[simp] theorem holdings_awaken (st : NetState) (turn : Turn) :
    (st.awaken turn).holdings = st.holdings := by
  have hrequests (requests : List (NodeId × Uint256)) (st : NetState) :
      (requests.foldl (fun st request => st.request request.1 request.2) st).holdings =
        st.holdings := by
    induction requests generalizing st with
    | nil => rfl
    | cons request rest ih =>
      rw [foldl_cons, ih, holdings_request]
  unfold awaken
  rw [hrequests]
  rfl

end NetState

variable {st : NetState} {peer : NodeId} {hash : Uint256} {stop : Stop}

/-! ## ProcessBlock -/

theorem processNewBlock_cases (call : AcceptCall) (st : AcceptState) :
    (processNewBlock env rules stake call st).state.block.content = st.block.content ∧
      ((∃ failure, (processNewBlock env rules stake call st).result = .error failure) ∧
          (processNewBlock env rules stake call st).state.man.blockFiles = st.man.blockFiles ∨
        (checkBlock env true true true st.block).result = .ok () ∧
          Extends st.block st.man.blockFiles
            (processNewBlock env rules stake call st).state.man.blockFiles) := by
  have hchecked := @content_checkBlock env true true true st.block
  unfold processNewBlock
  dsimp only
  cases hresult : (checkBlock env true true true st.block).result with
  | error failure => exact ⟨hchecked, .inl ⟨⟨_, rfl⟩, rfl⟩⟩
  | ok value =>
    refine ⟨(content_acceptBlock _ _).trans hchecked, .inr ⟨rfl, ?_⟩⟩
    rcases @acceptBlock_blockFiles env rules stake call
      { st with block := (checkBlock env true true true st.block).state } with
      hsame | ⟨ancestors, -, hmore⟩
    · exact .inl hsame
    · exact .inr ⟨_, (content_blockTests _ _).trans hchecked, hmore⟩

theorem holdings_processBlock (processing : Processing) (force min_pow : Bool) (block : CBlock)
    (st : NetState) : Processes env block st.holdings
      (processBlock env rules stake processing force min_pow block st).state.holdings := by
  have hfinish (new : Bool) (hash : Uint256) (st : NetState) :
      (if new then st.removeBlockRequest hash none else st).holdings = st.holdings := by
    cases new <;> rfl
  obtain ⟨hcontent, hcases⟩ := @processNewBlock_cases env rules stake
    { processing.call with fRequested := force, min_pow_checked := min_pow } ⟨st.man, block⟩
  unfold processBlock
  dsimp only
  cases hresult : (processNewBlock env rules stake
      { processing.call with fRequested := force, min_pow_checked := min_pow }
      ⟨st.man, block⟩).result with
  | ok entry =>
    rw [hresult] at hcases
    rcases hcases with ⟨⟨failure, hfailure⟩, -⟩ | ⟨hpassed, hfiles⟩
    · cases hfailure
    · refine .inr ⟨hpassed, ?_, ?_, ?_⟩
      · rw [state_pass, hfinish]
        rfl
      · rw [state_pass, hfinish]
        exact hfiles
      · rw [state_pass, hfinish]
        exact .inr ⟨_, hcontent, rfl⟩
  | error failure =>
    have hfiles : Processes env block st.holdings
        ⟨(processNewBlock env rules stake
          { processing.call with fRequested := force, min_pow_checked := min_pow }
          ⟨st.man, block⟩).state.man.blockFiles, st.mapBlocksWait, st.activated⟩ := by
      rcases hcases with ⟨-, hsame⟩ | ⟨hpassed, hfiles⟩
      · left
        rw [hsame]
        rfl
      · exact .inr ⟨hpassed, rfl, hfiles, .inl rfl⟩
    dsimp only
    split
    · exact hfiles
    · rw [state_pass, hfinish]
      exact hfiles

/-- The stops that come from `ProcessBlock`. -/
def FromProcessing (stop : Stop) : Prop := stop = .thrown ∨ stop = .aborted

theorem processBlock_error {processing : Processing} {force min_pow : Bool} {block : CBlock}
    (h : (processBlock env rules stake processing force min_pow block st).result = .error stop) :
    FromProcessing stop := by
  unfold processBlock at h
  dsimp only at h
  split at h
  · cases h
  · split at h
    · next failure _ stop hstop =>
      cases h
      unfold stopOf at hstop
      split at hstop
      · cases hstop
        exact .inr rfl
      · cases hstop
        exact .inr rfl
      · cases hstop
        exact .inl rfl
      · cases hstop
    · cases h

/-! ## Compact blocks -/

/-- A part of a handler leaves the holdings as they are or gives one block to
`ProcessBlock`, and stops in certain ways only. -/
structure Handles (env : Env) (stops : Stop → Prop) (given : CBlock → Prop) (old : Holdings)
    (done : Outcome NetState Stop Unit) : Prop where
  holdings : done.state.holdings = old ∨
    ∃ block, given block ∧ Processes env block old done.state.holdings
  stopped : ∀ stop, done.result = .error stop → stops stop

section Handles

variable {stops : Stop → Prop} {given : CBlock → Prop} {old : Holdings}

theorem Handles.pass (h : st.holdings = old) : Handles env stops given old (.pass st) :=
  ⟨.inl h, fun _ hresult => by cases hresult⟩

theorem Handles.fail (h : st.holdings = old) (hstop : stops stop) :
    Handles env stops given old (.fail st stop) := by
  refine ⟨.inl h, ?_⟩
  intro _ hresult
  cases hresult
  exact hstop

theorem Handles.processBlock {processing : Processing} {force min_pow : Bool} {block : CBlock}
    (h : given block) (hold : st.holdings = old) : Handles env FromProcessing given old
      (processBlock env rules stake processing force min_pow block st) := by
  subst hold
  exact ⟨.inr ⟨block, h, holdings_processBlock ..⟩, fun _ => processBlock_error⟩

theorem Handles.waiting_eq {done : Outcome NetState Stop Unit}
    (h : Handles env stops given old done) : done.state.mapBlocksWait = old.waiting := by
  rcases h.holdings with hsame | ⟨block, -, hprocesses⟩
  · exact congrArg Holdings.waiting hsame
  · exact hprocesses.waiting_eq

end Handles

/-- What `BLOCKTXN` gives to `ProcessBlock`: a block that was filled, whether it passed
`CheckBlock` then or not. -/
def Fills (env : Env) (partialBlock : PartiallyDownloadedBlock) (txn : List CTransaction)
    (block : CBlock) : Prop :=
  fillBlock env partialBlock txn = (some block, .READ_STATUS_OK) ∨
    fillBlock env partialBlock txn = (some block, .READ_STATUS_CHECKBLOCK_FAILED)

theorem handles_blockTxn (call : NetCall) (hash : Uint256) (txn : List CTransaction)
    (st : NetState) : Handles env FromProcessing
      (fun block => ∃ partialBlock,
        (st.requestFrom hash call.peer).bind QueuedBlock.partialBlock = some partialBlock ∧
          Fills env partialBlock txn block)
      st.holdings (blockTxn env rules stake call hash txn st) := by
  unfold blockTxn
  split
  · exact .pass rfl
  · split
    · exact .pass rfl
    · next partialBlock hpart =>
      split
      · split
        · exact .pass rfl
        · exact .pass rfl
      · next block hfill =>
        refine Handles.processBlock ?_ rfl
        exact ⟨partialBlock, hpart, .inl hfill⟩
      · next block hfill =>
        refine Handles.processBlock ?_ rfl
        exact ⟨partialBlock, hpart, .inr hfill⟩
      · exact .pass rfl

/-- The request of a block, after its partial block was replaced. -/
theorem NetState.requestFrom_setPartial {queued : QueuedBlock}
    (partialBlock : PartiallyDownloadedBlock) (h : st.requestFrom hash peer = some queued) :
    (st.setPartial hash peer partialBlock).requestFrom hash peer =
      some { queued with partialBlock := some partialBlock } := by
  have hpeer : (queued.peer == peer) = true :=
    @find?_some _ (fun queued : QueuedBlock => queued.peer == peer) _ _ h
  have hhash : (queued.hash == hash) = true := (mem_filter.mp (mem_of_find?_eq_some h)).2
  have hset : (if queued.hash == hash && queued.peer == peer then
      { queued with partialBlock := some partialBlock } else queued) =
        { queued with partialBlock := some partialBlock } := by
    rw [hhash, hpeer]
    rfl
  -- hash and peer of a request are not touched, so that the same one is found
  have hkeeps (test : QueuedBlock → Bool)
      (hsame : ∀ queued, test { queued with partialBlock := some partialBlock } = test queued) :
      test ∘ (fun queued => if queued.hash == hash && queued.peer == peer then
        { queued with partialBlock := some partialBlock } else queued) = test := by
    funext other
    dsimp only [Function.comp]
    split
    · exact hsame other
    · rfl
  unfold requestFrom inFlight at h ⊢
  unfold setPartial
  rw [filter_map, hkeeps _ fun _ => rfl, find?_map, hkeeps _ fun _ => rfl, h,
    Option.map_some, hset]

/-- The request that was made for a compact block has its partial block. -/
theorem NetState.requestFrom_blockRequested {next : NetState}
    {partialBlock : PartiallyDownloadedBlock}
    (h : st.blockRequested hash peer partialBlock = some next) : next.holdings = st.holdings ∧
      (next.requestFrom hash peer).bind QueuedBlock.partialBlock = some partialBlock := by
  unfold blockRequested at h
  split at h
  · next hnone =>
    cases h
    refine ⟨rfl, ?_⟩
    unfold requestFrom inFlight at hnone ⊢
    rw [filter_append, find?_append, hnone]
    simp
  · next queued hsome =>
    split at h
    · cases h
      refine ⟨rfl, ?_⟩
      rw [requestFrom_setPartial partialBlock hsome]
      rfl
    · cases h

theorem handles_requestMissing (call : NetCall) (cmpctblock : CompactBlock) (hash : Uint256)
    (st : NetState) :
    Handles env FromProcessing (Fills env (call.initData cmpctblock).2 []) st.holdings
      (requestMissing env rules stake call cmpctblock hash st) := by
  unfold requestMissing
  dsimp only
  split
  · exact .pass rfl
  · next requested hrequested =>
    obtain ⟨hholdings, hpart⟩ := NetState.requestFrom_blockRequested hrequested
    rw [← hholdings]
    split
    · exact .pass rfl
    · split
      · have htxn := @handles_blockTxn env rules stake call hash [] requested
        simp only [hpart, Option.some.injEq, exists_eq_left'] at htxn
        exact htxn
      · split
        · exact .pass rfl
        · exact .pass rfl
    · split
      · exact .pass rfl
      · exact .pass rfl

theorem handles_reconstructOptimistically (call : NetCall) (cmpctblock : CompactBlock)
    (pindex : IndexEntry) (st : NetState) :
    Handles env FromProcessing (Fills env (call.initData cmpctblock).2 []) st.holdings
      (reconstructOptimistically env rules stake call cmpctblock pindex st) := by
  unfold reconstructOptimistically
  split
  · next tempBlock hinit =>
    split
    · next block hfill =>
      have hdone : Handles env FromProcessing (Fills env (call.initData cmpctblock).2 [])
          st.holdings
          (processBlock env rules stake (call.processing 0) true true block st) := by
        rw [hinit]
        exact .processBlock (.inl hfill) rfl
      cases hresult :
          (processBlock env rules stake (call.processing 0) true true block st).result with
      | error stop =>
        rw [andThen_of_error hresult]
        exact ⟨hdone.holdings, fun _ hstop => hdone.stopped _ (hresult.trans hstop)⟩
      | ok value =>
        rw [andThen_of_ok hresult]
        split
        · exact ⟨hdone.holdings, fun _ hstop => by cases hstop⟩
        · exact ⟨hdone.holdings, fun _ hstop => by cases hstop⟩
    · exact .pass rfl
  · exact .pass rfl

theorem blockFiles_processHeaders (now : ℕ) (min_pow_checked : Bool) (nCooling : Int32)
    (headers : List CBlockHeader) (ppindex : Option IndexEntry) (st : ChainMan × Int32) :
    (processHeaders env rules now min_pow_checked nCooling headers ppindex st).state.1.blockFiles =
      st.1.blockFiles := by
  induction headers generalizing ppindex st with
  | nil => rfl
  | cons header rest ih =>
    obtain ⟨man, nPoSTemperature⟩ := st
    obtain ⟨index, hindex⟩ := @acceptBlockHeader_state env rules now header min_pow_checked man
    unfold processHeaders
    dsimp only
    split
    · show (acceptBlockHeader env rules now header min_pow_checked man).state.blockFiles = _
      rw [hindex]
    · rw [ih, hindex]

theorem blockFiles_processNewBlockHeaders (now : ℕ) (lastAcceptedHeader : Uint256)
    (headers : List CBlockHeader) (min_pow_checked : Bool) (man : ChainMan)
    (nPoSTemperature : Int32) :
    (processNewBlockHeaders env rules now lastAcceptedHeader headers min_pow_checked man
      nPoSTemperature).state.1.blockFiles = man.blockFiles := by
  unfold processNewBlockHeaders
  dsimp only
  split
  · exact blockFiles_processHeaders ..
  · exact blockFiles_processHeaders ..

theorem handles_headersMessage {given : CBlock → Prop} (call : NetCall) (header : CBlockHeader)
    (st : NetState) : Handles env FromProcessing given st.holdings
      (headersMessage env rules call header st) := by
  have hfiles := @blockFiles_processNewBlockHeaders env rules call.now call.lastAcceptedHeader
    [header] true st.man (st.temperature call.addr)
  unfold headersMessage
  dsimp only
  split
  · exact .fail (NetState.holdings_headers hfiles) (.inr rfl)
  · exact .pass (NetState.holdings_headers hfiles)

theorem handles_compactBlockBody (call : NetCall) (cmpctblock : CompactBlock)
    (pindex : IndexEntry) (st : NetState) :
    Handles env FromProcessing (Fills env (call.initData cmpctblock).2 []) st.holdings
      (compactBlockBody env rules stake call cmpctblock pindex st) := by
  unfold compactBlockBody
  dsimp only
  split
  · exact .pass rfl
  · split
    · exact .pass rfl
    · split
      · exact .pass rfl
      · split
        · split
          · exact handles_requestMissing ..
          · exact handles_reconstructOptimistically ..
        · split
          · exact .pass rfl
          · exact handles_headersMessage ..

/-- The handler of compact blocks adds an assertion. -/
theorem handles_cmpctBlock (call : NetCall) (cmpctblock : CompactBlock) (st : NetState) :
    Handles env (· ≠ .nullPointer) (Fills env (call.initData cmpctblock).2 []) st.holdings
      (cmpctBlock env rules stake call cmpctblock st) := by
  have hfiles := @blockFiles_processNewBlockHeaders env rules call.now st.man.tip
    [cmpctblock.header] true st.man (st.temperature call.addr)
  have haccepted (pindex : Option IndexEntry) (next : NetState)
      (hnext : next.holdings = st.holdings) :
      Handles env (· ≠ .nullPointer) (Fills env (call.initData cmpctblock).2 []) st.holdings
        (compactBlockAccepted env rules stake call cmpctblock pindex next) := by
    have hreset : (if overheated (next.temperature call.addr) then
        next.setTemperature call.addr resetTemperature else next).holdings = st.holdings := by
      split <;> exact hnext
    unfold compactBlockAccepted
    dsimp only
    split
    · exact .pass hreset
    · split
      · exact .fail hreset (by simp)
      · rw [← hreset]
        refine ⟨(handles_compactBlockBody ..).holdings, fun stop hresult => ?_⟩
        rcases (handles_compactBlockBody ..).stopped stop hresult with rfl | rfl
        · simp
        · simp
  unfold cmpctBlock
  dsimp only
  split
  · exact .pass rfl
  · split
    · exact .pass rfl
    · split
      · exact .pass rfl
      · split
        · exact .pass (NetState.holdings_headers hfiles)
        · exact .fail (NetState.holdings_headers hfiles) (by simp)
        · exact haccepted _ _ (NetState.holdings_headers hfiles)
        · exact haccepted _ _ (NetState.holdings_headers hfiles)

/-! ## Blocks -/

theorem mem_insertWait {key : Option Uint256} {we : WaitElement} {queue : WaitQueue}
    {pair : Option Uint256 × WaitElement} (h : pair ∈ insertWait address key we queue) :
    pair = (key, we) ∨ pair ∈ queue := by
  induction queue with
  | nil => exact .inl (mem_singleton.mp h)
  | cons first rest ih =>
    unfold insertWait at h
    split_ifs at h with hkey hbefore
    · rcases mem_cons.mp h with hpair | hrest
      · exact .inl hpair
      · exact .inr (.tail _ hrest)
    · rcases mem_cons.mp h with hpair | hrest
      · exact .inl hpair
      · exact .inr hrest
    · rcases mem_cons.mp h with hpair | hrest
      · exact .inr (hpair ▸ .head _)
      · exact (ih hrest).imp_right (.tail _)

/-- Taking a block in changes the temperature and the requests only. -/
theorem takeIn_state (call : NetCall) (block : CBlock) (st : NetState) :
    ∃ mapPoSTemperature mapBlocksInFlight, (takeIn env call block st).state =
      { st with mapPoSTemperature, mapBlocksInFlight } := by
  unfold takeIn unrequested
  dsimp only
  split
  · exact ⟨_, _, rfl⟩
  · split
    · exact ⟨_, _, rfl⟩
    · split
      · exact ⟨_, _, rfl⟩
      · split
        · exact ⟨_, _, rfl⟩
        · exact ⟨_, _, rfl⟩

theorem man_takeIn (call : NetCall) (block : CBlock) (st : NetState) :
    (takeIn env call block st).state.man = st.man := by
  obtain ⟨_, _, hstate⟩ := @takeIn_state env call block st
  rw [hstate]

theorem holdings_takeIn (call : NetCall) (block : CBlock) (st : NetState) :
    (takeIn env call block st).state.holdings = st.holdings := by
  obtain ⟨_, _, hstate⟩ := @takeIn_state env call block st
  rw [hstate]
  rfl

theorem mapBlocksWait_takeIn (call : NetCall) (block : CBlock) (st : NetState) :
    (takeIn env call block st).state.mapBlocksWait = st.mapBlocksWait :=
  congrArg Holdings.waiting (holdings_takeIn call block st)

end Patchcoin
