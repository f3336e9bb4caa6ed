import Patchcoin.Lib.Run
import Patchcoin.SmallStake

/-!
# The cache of staked transactions

`TxIndex::cachedTxs` holds transactions that were read from disk, each with the header of
its block.  `GetCoinAge` and the minter write it, `CheckProofOfStake` reads it, and nothing
ever takes an entry out: a transaction that a reorganisation moves to another block keeps
the header of the block it was in.

`TxIndex.Reflects` says what an index and its cache should be for a given chain: the index
points to the block in the chain, and what is cached is what would be read there.  Then it
makes no difference whether something is cached (`checkProofOfStake_emptied`,
`getCoinAge_emptied`).  Reading keeps the cache that way, disconnecting a block too; what
remains are the blocks that are connected.
-/

namespace Patchcoin

open Outcome

/-- A header and a transaction of its block. -/
abbrev HeaderTx := CBlockHeader × CTransaction

namespace TxIndex

variable (index : TxIndex)

/-- `cachedTxs[hash] = found`, where nothing is cached yet. -/
def remember (hash : Uint256) (found : HeaderTx) : TxIndex :=
  match index.cachedTxs hash with
  | some _ => index
  | none => { index with cachedTxs := Function.update index.cachedTxs hash (some found) }

/-- A transaction from the cache, or else from disk. -/
def cachedOrRead (hash : Uint256) : Option HeaderTx :=
  match index.cachedTxs hash with
  | some found => some found
  | none => (index.findTxPosition hash).bind index.readBlockFile

/-- The index of a node that has cached nothing. -/
def emptied : TxIndex := { index with cachedTxs := fun _ => none }

end TxIndex

/-! ## Readers and writers -/

section

variable (env : Env) (nTimeTx : UInt32) (isTrueCoinAge : Bool)

/-- What an input adds to the coin age, in cent-seconds. -/
def inputCoinAge (prevout : COutPoint) (found : HeaderTx) : Except KernelFail ℕ :=
  let nBlockTime : ℤ := found.1.nTime.toNat
  if found.2.getHash env.host.hash256 ≠ prevout.hash then .error (.refused .silent)
  else if (nTimeTx.toNat : ℤ) < nBlockTime + env.params.nStakeMinAge then .ok 0
  else match found.2.vout[prevout.n.toNat]? with
    | none => .error .outOfBounds
    | some out =>
      let nTime : ℤ := if found.2.nTime = 0 then nBlockTime else found.2.nTime.toNat
      let nAge : Int32 := Int32.ofInt (nTimeTx.toNat - nTime)
      let nEffectiveAge := if !isTrueCoinAge || isProtocolV09 env.params nTimeTx.toNat then
        min nAge (365 * 24 * 60 * 60) else nAge
      .ok (out.nValue.toUInt64.toNat * nEffectiveAge.toUInt32.toNat % 2 ^ 256 / CENT.toNat)

/-- The loop of `GetCoinAge` over the inputs. -/
def coinAgeLoop (view : CCoinsView) : List CTxIn → TxIndex → ℕ → Outcome TxIndex KernelFail ℕ
  | [], index, bnCentSecond => .lift index (.ok bnCentSecond)
  | input :: rest, index, bnCentSecond =>
    -- without `isTrueCoinAge` the coin is not looked up and keeps the time zero
    match (if isTrueCoinAge then (view.coins input.prevout).map Coin.nTime else some 0) with
    | none => coinAgeLoop view rest index bnCentSecond
    | some nTimeCoin =>
      if nTimeTx < nTimeCoin then .fail index (.refused .silent)
      else match index.cachedOrRead input.prevout.hash with
        | none => .fail index (.refused .silent)
        | some found =>
          match inputCoinAge env nTimeTx isTrueCoinAge input.prevout found with
          | .error failure => .fail (index.remember input.prevout.hash found) failure
          | .ok nAge => coinAgeLoop view rest (index.remember input.prevout.hash found)
              ((bnCentSecond + nAge) % 2 ^ 256)

/-- `GetCoinAge`, with the age and what it leaves in the cache. -/
def TxIndex.getCoinAge (tx : CTransaction) (view : CCoinsView) (index : TxIndex) :
    Outcome TxIndex KernelFail UInt64 :=
  if tx.isCoinBase then .lift index (.ok 0)
  else (coinAgeLoop env nTimeTx isTrueCoinAge view tx.vin index 0).andThen
    fun bnCentSecond index => .lift index (.ok (UInt64.ofNat
      (bnCentSecond * CENT.toNat % 2 ^ 256 / COIN.toNat / (24 * 60 * 60))))

end

/-- The transactions that `CreateCoinStake` reads, of the coins it goes through. -/
def createCoinStakeReads : List COutPoint → TxIndex → TxIndex
  | [], index => index
  | outpoint :: rest, index =>
    match index.findTxPosition outpoint.hash with
    | none => createCoinStakeReads rest index
    | some postx =>
      match index.cachedTxs outpoint.hash with
      | some _ => createCoinStakeReads rest index
      | none =>
        match index.readBlockFile postx with
        | none => index
        | some found => createCoinStakeReads rest (index.remember outpoint.hash found)

/-! ## Caches that reflect a chain -/

/-- The transaction with a hash, in a block of the chain. -/
def ConfirmedIn (env : Env) (chain : List CBlock) (hash : Uint256) (found : HeaderTx) : Prop :=
  ∃ block ∈ chain, ∃ tx ∈ block.vtx, tx.getHash env.host.hash256 = hash ∧
    found = (block.toCBlockHeader, tx)

namespace TxIndex

variable {env : Env} {stake : StakeRules} {chain : List CBlock} {index index' : TxIndex}
  {hash : Uint256} {found : HeaderTx}
variable {tx : CTransaction}

/-- The index on disk points to the transactions where the chain has them. -/
def PointsTo (env : Env) (chain : List CBlock) (index : TxIndex) : Prop :=
  ∀ hash found, ConfirmedIn env chain hash found →
    ∃ postx, index.findTxPosition hash = some postx ∧ index.readBlockFile postx = some found

/-- What is cached of the transactions of the chain is what the chain has. -/
def Coherent (env : Env) (chain : List CBlock) (index : TxIndex) : Prop :=
  ∀ hash found, ConfirmedIn env chain hash found →
    ∀ cached, index.cachedTxs hash = some cached → cached = found

structure Reflects (env : Env) (chain : List CBlock) (index : TxIndex) : Prop where
  pointsTo : index.PointsTo env chain
  coherent : index.Coherent env chain

theorem findTxPosition_remember :
    (index.remember hash found).findTxPosition = index.findTxPosition ∧
      (index.remember hash found).readBlockFile = index.readBlockFile := by
  unfold remember
  cases index.cachedTxs hash with
  | some cached => exact ⟨rfl, rfl⟩
  | none => exact ⟨rfl, rfl⟩

section

variable (h : index.Reflects env chain)
include h

theorem Reflects.emptied : index.emptied.Reflects env chain where
  pointsTo := h.pointsTo
  coherent _ _ _ _ hcached := by cases hcached

/-- A confirmed transaction is found with the header of its block, cached or not. -/
theorem Reflects.cachedOrRead_eq
    (hconfirmed : ConfirmedIn env chain hash found) : index.cachedOrRead hash = some found := by
  obtain ⟨postx, hposition, hread⟩ := h.pointsTo hash found hconfirmed
  unfold cachedOrRead
  cases hcached : index.cachedTxs hash with
  | some cached => rw [h.coherent hash found hconfirmed cached hcached]
  | none =>
    rw [hposition, Option.bind_some, hread]

theorem Reflects.readTx_eq (hconfirmed : ConfirmedIn env chain hash found) :
    ∃ postx, index.findTxPosition hash = some postx ∧ index.readTx hash = some (postx, found) := by
  obtain ⟨postx, hposition, hread⟩ := h.pointsTo hash found hconfirmed
  refine ⟨postx, hposition, ?_⟩
  unfold readTx
  rw [hposition]
  cases hcached : index.cachedTxs hash with
  | some cached => rw [h.coherent hash found hconfirmed cached hcached]
  | none =>
    dsimp only
    rw [hread, Option.map_some]

/-- What was read may be remembered. -/
theorem Reflects.remember (hread : index.cachedOrRead hash = some found) :
    (index.remember hash found).Reflects env chain := by
  obtain ⟨hposition, hfile⟩ := @findTxPosition_remember index hash found
  refine ⟨?_, ?_⟩
  · unfold PointsTo
    rw [hposition, hfile]
    exact h.pointsTo
  · intro other confirmed hconfirmed cached hcached
    unfold TxIndex.remember at hcached
    cases hold : index.cachedTxs hash with
    | some known =>
      rw [hold] at hcached
      exact h.coherent other confirmed hconfirmed cached hcached
    | none =>
      rw [hold] at hcached
      dsimp only at hcached
      by_cases heq : other = hash
      · subst heq
        rw [h.cachedOrRead_eq hconfirmed, Option.some.injEq] at hread
        rw [Function.update_self, Option.some.injEq] at hcached
        rw [← hcached, hread]
      · rw [Function.update_of_ne heq] at hcached
        exact h.coherent other confirmed hconfirmed cached hcached

/-! ## Cached or not makes no difference -/

theorem Reflects.checkProofOfStake_emptied (hconfirmed : ConfirmedIn env chain
      ((tx.vin.head?.map CTxIn.prevout).getD COutPoint.null).hash found) (view : StakeView)
    (ancestors : IndexChain) (nBits nTimeTx : UInt32) :
    checkProofOfStake env stake view (some index) ancestors tx nBits nTimeTx =
      checkProofOfStake env stake view (some index.emptied) ancestors tx nBits nTimeTx := by
  obtain ⟨postx, hposition, hread⟩ := h.readTx_eq hconfirmed
  obtain ⟨postx', hposition', hread'⟩ := h.emptied.readTx_eq hconfirmed
  obtain rfl : postx = postx' := by
    have hsame : index.emptied.findTxPosition = index.findTxPosition := rfl
    rw [hsame, hposition, Option.some.injEq] at hposition'
    exact hposition'
  unfold checkProofOfStake
  dsimp only [Option.bind_some]
  rw [hread, hread']

end

/-- Two indices for one chain find the same coin age, and reading keeps them that way. -/
theorem Reflects.coinAgeLoop_eq {nTimeTx : UInt32} {isTrueCoinAge : Bool} {view : CCoinsView}
    (inputs : List CTxIn)
    (hconfirmed : ∀ input ∈ inputs, ∃ found, ConfirmedIn env chain input.prevout.hash found) :
    ∀ {index index' : TxIndex} (_ : index.Reflects env chain) (_ : index'.Reflects env chain)
      (bnCentSecond : ℕ),
      (coinAgeLoop env nTimeTx isTrueCoinAge view inputs index bnCentSecond).result =
        (coinAgeLoop env nTimeTx isTrueCoinAge view inputs index' bnCentSecond).result := by
  induction inputs with
  | nil => intro index index' _ _ bnCentSecond; rfl
  | cons input rest ih =>
    intro index index' h h' bnCentSecond
    have hrest := @ih fun other hother => hconfirmed other (.tail _ hother)
    obtain ⟨found, hfound⟩ := hconfirmed input (.head _)
    rw [coinAgeLoop, coinAgeLoop]
    cases (if isTrueCoinAge = true then (view.coins input.prevout).map Coin.nTime else some 0) with
    | none => exact hrest h h' bnCentSecond
    | some nTimeCoin =>
      dsimp only
      split_ifs
      · rfl
      · have hread := h.cachedOrRead_eq hfound
        have hread' := h'.cachedOrRead_eq hfound
        rw [hread, hread']
        dsimp only
        cases inputCoinAge env nTimeTx isTrueCoinAge input.prevout found with
        | error failure => rfl
        | ok nAge => exact hrest (h.remember hread) (h'.remember hread') _

theorem Reflects.getCoinAge_emptied (h : index.Reflects env chain)
    (hconfirmed : ∀ input ∈ tx.vin, ∃ found, ConfirmedIn env chain input.prevout.hash found)
    (nTimeTx : UInt32) (isTrueCoinAge : Bool) (view : CCoinsView) :
    (getCoinAge env nTimeTx isTrueCoinAge tx view index).result =
      (getCoinAge env nTimeTx isTrueCoinAge tx view index.emptied).result := by
  have hloop := @Reflects.coinAgeLoop_eq env chain nTimeTx isTrueCoinAge view tx.vin hconfirmed
    index index.emptied h h.emptied 0
  unfold getCoinAge
  split
  · rfl
  · cases hresult : (coinAgeLoop env nTimeTx isTrueCoinAge view tx.vin index 0).result with
    | error failure =>
      rw [hresult] at hloop
      rw [andThen_of_error hresult, andThen_of_error hloop.symm]
    | ok bnCentSecond =>
      rw [hresult] at hloop
      rw [andThen_of_ok hresult, andThen_of_ok hloop.symm]
      rfl

/-! ## Reading keeps the cache right -/

theorem Reflects.coinAgeLoop {nTimeTx : UInt32} {isTrueCoinAge : Bool} {view : CCoinsView}
    (inputs : List CTxIn) : ∀ {index : TxIndex} (_ : index.Reflects env chain) (bnCentSecond : ℕ),
      (Patchcoin.coinAgeLoop env nTimeTx isTrueCoinAge view inputs index
        bnCentSecond).state.Reflects env chain := by
  induction inputs with
  | nil => intro index h bnCentSecond; exact h
  | cons input rest ih =>
    intro index h bnCentSecond
    rw [Patchcoin.coinAgeLoop]
    cases (if isTrueCoinAge = true then (view.coins input.prevout).map Coin.nTime else some 0) with
    | none => exact ih h bnCentSecond
    | some nTimeCoin =>
      dsimp only
      split_ifs
      · exact h
      · cases hread : index.cachedOrRead input.prevout.hash with
        | none => exact h
        | some found =>
          dsimp only
          cases inputCoinAge env nTimeTx isTrueCoinAge input.prevout found with
          | error failure => exact h.remember hread
          | ok nAge => exact ih (h.remember hread) _

theorem Reflects.getCoinAge (h : index.Reflects env chain) (nTimeTx : UInt32)
    (isTrueCoinAge : Bool) (tx : CTransaction) (view : CCoinsView) :
    (TxIndex.getCoinAge env nTimeTx isTrueCoinAge tx view index).state.Reflects env chain := by
  unfold TxIndex.getCoinAge
  split
  · exact h
  · refine andThen_invariant (P := Reflects env chain) (h.coinAgeLoop tx.vin 0) ?_
    exact fun _ _ hindex => hindex

theorem Reflects.createCoinStakeReads (outpoints : List COutPoint) :
    ∀ {index : TxIndex} (_ : index.Reflects env chain),
      (Patchcoin.createCoinStakeReads outpoints index).Reflects env chain := by
  induction outpoints with
  | nil => intro index h; exact h
  | cons outpoint rest ih =>
    intro index h
    rw [Patchcoin.createCoinStakeReads]
    cases hposition : index.findTxPosition outpoint.hash with
    | none => exact ih h
    | some postx =>
      cases hcached : index.cachedTxs outpoint.hash with
      | some cached => exact ih h
      | none =>
        dsimp only
        cases hfile : index.readBlockFile postx with
        | none => exact h
        | some found =>
          have hread : index.cachedOrRead outpoint.hash = some found := by
            unfold cachedOrRead
            rw [hcached, hposition]
            exact hfile
          exact ih (h.remember hread)

end TxIndex

/-! ## Reorganisations -/

/-- The part of the index that is on disk: positions and block files. -/
structure TxDisk where
  findTxPosition : Uint256 → Option CDiskTxPos
  readBlockFile : CDiskTxPos → Option HeaderTx

/-- The index with other contents on disk and the same cache. -/
def TxIndex.withDisk (index : TxIndex) (disk : TxDisk) : TxIndex :=
  ⟨disk.findTxPosition, index.cachedTxs, disk.readBlockFile⟩

/-- The active chain, its tip first, and the transaction index. -/
structure CacheState where
  chain : List CBlock
  g_txindex : TxIndex

inductive CacheEvent where
  | connectTip (block : CBlock) (disk : TxDisk)
  | disconnectTip (disk : TxDisk)
  /-- `GetCoinAge`, of a transaction of a block or of the wallet -/
  | getCoinAge (tx : CTransaction) (view : CCoinsView) (nTimeTx : UInt32) (isTrueCoinAge : Bool)
  /-- the minter goes through its coins -/
  | createCoinStake (outpoints : List COutPoint)

namespace CacheState

variable {env : Env} {stake : StakeRules}
variable {st : CacheState}

def step (env : Env) (st : CacheState) : CacheEvent → CacheState
  | .connectTip block disk => ⟨block :: st.chain, st.g_txindex.withDisk disk⟩
  | .disconnectTip disk => ⟨st.chain.tail, st.g_txindex.withDisk disk⟩
  | .getCoinAge tx view nTimeTx isTrueCoinAge =>
    ⟨st.chain, (st.g_txindex.getCoinAge env nTimeTx isTrueCoinAge tx view).state⟩
  | .createCoinStake outpoints => ⟨st.chain, createCoinStakeReads outpoints st.g_txindex⟩

/-- The index on disk points to the active chain. -/
def Indexed (env : Env) (st : CacheState) : Prop := st.g_txindex.PointsTo env st.chain

/-- Every transaction of the active chain that is cached is cached with its block. -/
def Coherent (env : Env) (st : CacheState) : Prop := st.g_txindex.Coherent env st.chain

/-- The proof of stake and the coin age of confirmed coins are the same as on a node that
has cached nothing. -/
def SameAsEmptied (env : Env) (stake : StakeRules) (st : CacheState) : Prop :=
  (∀ tx : CTransaction, (∃ found, ConfirmedIn env st.chain
      ((tx.vin.head?.map CTxIn.prevout).getD COutPoint.null).hash found) →
    ∀ view ancestors nBits nTimeTx,
      checkProofOfStake env stake view (some st.g_txindex) ancestors tx nBits nTimeTx =
        checkProofOfStake env stake view (some st.g_txindex.emptied) ancestors tx nBits nTimeTx) ∧
  ∀ tx : CTransaction,
    (∀ input ∈ tx.vin, ∃ found, ConfirmedIn env st.chain input.prevout.hash found) →
    ∀ nTimeTx isTrueCoinAge view,
      (st.g_txindex.getCoinAge env nTimeTx isTrueCoinAge tx view).result =
        (st.g_txindex.emptied.getCoinAge env nTimeTx isTrueCoinAge tx view).result

/-- A block that is connected has no transaction that is cached with another block. -/
def ConnectsAsCached (env : Env) (st : CacheState) : CacheEvent → Prop
  | .connectTip block _ => ∀ tx ∈ block.vtx, ∀ cached,
      st.g_txindex.cachedTxs (tx.getHash env.host.hash256) = some cached →
        cached = (block.toCBlockHeader, tx)
  | _ => True

theorem Coherent.sameAsEmptied (h : st.Coherent env) (hindexed : st.Indexed env) :
    st.SameAsEmptied env stake := by
  have hreflects : st.g_txindex.Reflects env st.chain := ⟨hindexed, h⟩
  refine ⟨?_, ?_⟩
  · rintro tx ⟨found, hconfirmed⟩ view ancestors nBits nTimeTx
    exact hreflects.checkProofOfStake_emptied hconfirmed view ancestors nBits nTimeTx
  · intro tx hconfirmed nTimeTx isTrueCoinAge view
    exact hreflects.getCoinAge_emptied hconfirmed nTimeTx isTrueCoinAge view

/-- The steps that keep the cache coherent. -/
theorem coherent_step_iff {event : CacheEvent} (hindexed : st.Indexed env) (h : st.Coherent env) :
    (st.step env event).Coherent env ↔ st.ConnectsAsCached env event := by
  have hreflects : st.g_txindex.Reflects env st.chain := ⟨hindexed, h⟩
  cases event with
  | connectTip block disk =>
    constructor
    · intro hnext tx htx cached hcached
      exact hnext _ _ ⟨block, .head _, tx, htx, rfl, rfl⟩ cached hcached
    · rintro hconnects hash found ⟨other, hother, tx, htx, rfl, rfl⟩ cached hcached
      rcases List.mem_cons.mp hother with rfl | hother
      · exact hconnects tx htx cached hcached
      · exact h _ _ ⟨other, hother, tx, htx, rfl, rfl⟩ cached hcached
  | disconnectTip disk =>
    refine iff_of_true ?_ trivial
    rintro hash found ⟨other, hother, hfound⟩ cached hcached
    exact h hash found ⟨other, List.mem_of_mem_tail hother, hfound⟩ cached hcached
  | getCoinAge tx view nTimeTx isTrueCoinAge =>
    exact iff_of_true (hreflects.getCoinAge nTimeTx isTrueCoinAge tx view).coherent trivial
  | createCoinStake outpoints =>
    exact iff_of_true (hreflects.createCoinStakeReads outpoints).coherent trivial

/-- Reading leaves the index on disk as it is. -/
theorem indexed_getCoinAge (h : st.g_txindex.Reflects env st.chain) (tx : CTransaction)
    (view : CCoinsView) (nTimeTx : UInt32) (isTrueCoinAge : Bool) :
    (st.step env (.getCoinAge tx view nTimeTx isTrueCoinAge)).Indexed env :=
  (h.getCoinAge nTimeTx isTrueCoinAge tx view).pointsTo

/-- The cache stays coherent, and without influence on the checks, exactly in the runs in
which no block is connected that has a transaction cached with another block. -/
theorem always_coherent_iff {events : List CacheEvent} {start : CacheState}
    (hindexed : Run.Always (step env) (Indexed env) events start) (hstart : start.Coherent env) :
    Run.Always (step env) (fun st => st.Coherent env ∧ st.SameAsEmptied env stake) events start ↔
      Run.Each (step env) (ConnectsAsCached env) events start := by
  have hstep : ∀ (st : CacheState) (event : CacheEvent), st.Indexed env → st.Coherent env →
      ((st.step env event).Coherent env ↔ st.ConnectsAsCached env event) :=
    fun st event => coherent_step_iff
  have heach : Run.Always (step env) (Coherent env) events start ↔
      Run.Each (step env) (ConnectsAsCached env) events start :=
    Run.always_iff_each_of_always hstep hindexed hstart
  rw [← heach]
  constructor
  · exact fun h => h.imp fun st hst => hst.1
  · intro h done hdone
    exact ⟨h done hdone, (h done hdone).sameAsEmptied (hindexed done hdone)⟩

end CacheState

namespace SmallNet

/-- The small network with a minimum age of thirty days. -/
def agedNode : Env :=
  { SmallNet.node false false with
    params := { (SmallNet.node false false).params with nStakeMinAge := 30 * 24 * 60 * 60 } }

/-- A transaction that spends a genesis output. -/
def movedTx : CTransaction := mkCoinstake (genesisPrevout 0) [genesisOut]

/-- A block after the genesis block with the transaction. -/
def spendBlock (time : UInt32) : CBlock := mkBlock 1 genesisHash time [movedTx] []

/-- A coinstake that spends the transaction. -/
def spender : CTransaction := mkCoinstake ⟨movedTx.getHash hash256, 1⟩ [genesisOut]

/-- The files of a node: the genesis block, and the block after it. -/
def spendDisk (time : UInt32) : TxDisk where
  findTxPosition hash := if hash = genesisTx.getHash hash256 then some ⟨0, 0⟩
    else if hash = (coinbase 1).getHash hash256 then some ⟨1, 0⟩
    else if hash = movedTx.getHash hash256 then some ⟨1, 1⟩ else none
  readBlockFile postx := if postx.nPos = 0 then some (genesisBlock.toCBlockHeader, genesisTx)
    else if postx.nTxOffset = 0 then some ((spendBlock time).toCBlockHeader, coinbase 1)
    else some ((spendBlock time).toCBlockHeader, movedTx)

theorem pointsTo_spendDisk {time : UInt32} {chain : List CBlock}
    (hchain : ∀ block ∈ chain, block = genesisBlock ∨ block = spendBlock time) (index : TxIndex) :
    (index.withDisk (spendDisk time)).PointsTo agedNode chain := by
  rintro hash found ⟨block, hblock, tx, htx, rfl, rfl⟩
  have hhash : agedNode.host.hash256 = hash256 := rfl
  rw [hhash]
  rcases hchain block hblock with rfl | rfl
  · have hvtx : genesisBlock.vtx = [genesisTx] := rfl
    rw [hvtx, List.mem_singleton] at htx
    subst htx
    refine ⟨⟨0, 0⟩, ?_, rfl⟩
    unfold TxIndex.withDisk spendDisk
    dsimp only
    rw [if_pos rfl]
  · have hvtx : (spendBlock time).vtx = [coinbase 1, movedTx] := rfl
    have hcoinbase : (coinbase 1).getHash hash256 ≠ genesisTx.getHash hash256 := by decide +kernel
    have hmoved : movedTx.getHash hash256 ≠ genesisTx.getHash hash256 ∧
        movedTx.getHash hash256 ≠ (coinbase 1).getHash hash256 := by decide +kernel
    rw [hvtx, List.mem_cons, List.mem_singleton] at htx
    rcases htx with rfl | rfl
    · refine ⟨⟨1, 0⟩, ?_, rfl⟩
      unfold TxIndex.withDisk spendDisk
      dsimp only
      rw [if_neg hcoinbase, if_pos rfl]
    · refine ⟨⟨1, 1⟩, ?_, rfl⟩
      unfold TxIndex.withDisk spendDisk
      dsimp only
      rw [if_neg hmoved.1, if_neg hmoved.2, if_pos rfl]

/-- A node with the genesis block and an empty cache. -/
def genesisCache (time : UInt32) : CacheState :=
  ⟨[genesisBlock],
    (⟨fun _ => none, fun _ => none, fun _ => none⟩ : TxIndex).withDisk (spendDisk time)⟩

def spentCoins : CCoinsView := ⟨fun _ => some ⟨genesisOut, false, true, 1, 0⟩, 0⟩

/-- The block is connected, and a transaction that spends its coin is looked at. -/
def lookAtCoin : List CacheEvent :=
  [.connectTip (spendBlock 1700000500) (spendDisk 1700000500),
    .getCoinAge spender spentCoins 1700000550 true]

/-- Then the block is replaced by another one with the same transaction. -/
def replaceBlock : List CacheEvent :=
  lookAtCoin ++ [.disconnectTip (spendDisk 1700000500),
    .connectTip (spendBlock 1700001500) (spendDisk 1700001500)]

/-- The ancestors of a block a month later. -/
def laterAncestors : IndexChain :=
  [{ genesisEntry.toCBlockIndex with
      nTime := 1702500000, nHeight := 2, nFlags := CBlockIndex.BLOCK_PROOF_OF_STAKE },
    { genesisEntry.toCBlockIndex with
      nTime := 1700001500, nHeight := 1, nFlags := CBlockIndex.BLOCK_PROOF_OF_STAKE },
    genesisEntry.toCBlockIndex]

/-- The node with the block connected. -/
def connectedCache : CacheState :=
  (genesisCache 1700000500).step agedNode
    (.connectTip (spendBlock 1700000500) (spendDisk 1700000500))

theorem reflects_connected : connectedCache.g_txindex.Reflects agedNode connectedCache.chain where
  pointsTo := pointsTo_spendDisk (by simp [connectedCache, CacheState.step, genesisCache]) _
  coherent _ _ _ _ hcached := by cases hcached

/-- The states of the longer run are indexed, hence those of the shorter one. -/
theorem indexed_replaceBlock :
    Run.Always (CacheState.step agedNode) (CacheState.Indexed agedNode) replaceBlock
      (genesisCache 1700000500) := by
  have hgenesis : (genesisCache 1700000500).Indexed agedNode :=
    pointsTo_spendDisk (by simp [genesisCache]) _
  have hread : (connectedCache.step agedNode
      (.getCoinAge spender spentCoins 1700000550 true)).Indexed agedNode :=
    CacheState.indexed_getCoinAge reflects_connected _ _ _ _
  have hevents : replaceBlock = [.connectTip (spendBlock 1700000500) (spendDisk 1700000500),
      .getCoinAge spender spentCoins 1700000550 true, .disconnectTip (spendDisk 1700000500),
      .connectTip (spendBlock 1700001500) (spendDisk 1700001500)] := rfl
  rw [hevents, Run.always_cons_iff, Run.always_cons_iff, Run.always_cons_iff, Run.always_cons_iff,
    Run.always_nil_iff]
  refine ⟨hgenesis, reflects_connected.pointsTo, hread, ?_, ?_⟩
  · exact pointsTo_spendDisk (by simp [CacheState.step, genesisCache]) _
  · exact pointsTo_spendDisk (by simp [CacheState.step, genesisCache]) _

theorem coherent_genesisCache (time : UInt32) : (genesisCache time).Coherent agedNode :=
  fun _ _ _ _ hcached => by cases hcached

/-- Before the replacement the cache is coherent. -/
theorem coherent_lookAtCoin : Run.Always (CacheState.step agedNode)
      (fun st => st.Coherent agedNode ∧ st.SameAsEmptied agedNode stakeRules) lookAtCoin
      (genesisCache 1700000500) := by
  have hindexed : Run.Always (CacheState.step agedNode) (CacheState.Indexed agedNode) lookAtCoin
      (genesisCache 1700000500) := fun done hdone =>
    indexed_replaceBlock done (hdone.trans (List.prefix_append ..))
  refine (CacheState.always_coherent_iff hindexed (coherent_genesisCache _)).mpr ?_
  refine ⟨?_, trivial, trivial⟩
  intro tx _ cached hcached
  cases hcached

/-- After it the cache holds the header of the block that is gone, and with it a proof of
stake passes that fails without it. -/
theorem stale_header :
    Run.Always (CacheState.step agedNode) (CacheState.Indexed agedNode) replaceBlock
        (genesisCache 1700000500) ∧
      ((Run.after (CacheState.step agedNode) replaceBlock
        (genesisCache 1700000500)).g_txindex.cachedTxs (movedTx.getHash hash256)).map Prod.fst =
          some (spendBlock 1700000500).toCBlockHeader ∧
      ConfirmedIn agedNode (Run.after (CacheState.step agedNode) replaceBlock
        (genesisCache 1700000500)).chain (movedTx.getHash hash256)
          ((spendBlock 1700001500).toCBlockHeader, movedTx) ∧
      (spendBlock 1700000500).toCBlockHeader ≠ (spendBlock 1700001500).toCBlockHeader ∧
      (checkProofOfStake agedNode stakeRules ⟨fun _ => none, []⟩
        (some (Run.after (CacheState.step agedNode) replaceBlock
          (genesisCache 1700000500)).g_txindex)
        laterAncestors spender 0x207fffff 1702593000).toOption.isSome = true ∧
      (checkProofOfStake agedNode stakeRules ⟨fun _ => none, []⟩
        (some (Run.after (CacheState.step agedNode) replaceBlock
          (genesisCache 1700000500)).g_txindex.emptied)
        laterAncestors spender 0x207fffff 1702593000).toOption.isSome = false := by
  refine ⟨indexed_replaceBlock, by decide +kernel, ?_, by decide +kernel, by decide +kernel,
    by decide +kernel⟩
  exact ⟨spendBlock 1700001500, .head _, movedTx,
    .tail _ (.head _), rfl, rfl⟩

end SmallNet

end Patchcoin
