import Patchcoin.Chain.Recovery

/-!
# The database after a replay

`ReplayBlocks` finds the fork of the two tips by walking back from both.  The
index is a tree, so the walk ends in one block with one list of ancestors
(`lastCommonAncestor_suffix`).  The rules for the two branches then give the
coins after the replay, for any part of the entries that was written.

The result is an exact condition (`replay_recovers_iff`).  With a non-null old
tip the replay fails only if it has to restore a spent genesis output and the
crash left none of the others.  With a null old tip it loses every genesis
output that had not been written.  From any tip it gives the outputs of a block that the node
has made itself the times of the block file.
-/

namespace Patchcoin

open Ledger List StoredChain CCoinsViewDB

variable {env : Env} {keys : PubKeys} {genesis : CTransaction} {tree : BlockTree}
  {old new chain rest : List StoredBlock} {coins oldCoins newCoins : COutPoint → Option Coin}
variable {outpoint : COutPoint}

/-! ## The fork -/

theorem walkBack_suffix {first second : List StoredBlock}
    (hsame : ∀ {a b : List StoredBlock}, a <:+ first → b <:+ second → a ≠ [] → b ≠ [] →
      tipHash a = tipHash b → a = b) :
    walkBack first second <:+ first ∧ walkBack first second <:+ second := by
  induction first generalizing second with
  | nil => exact ⟨by simp [walkBack], by simp [walkBack]⟩
  | cons pa resta ih =>
    cases second with
    | nil => exact ⟨by simp [walkBack], by simp [walkBack]⟩
    | cons pb restb =>
      rw [walkBack]
      split_ifs with hhash
      · have heq : pa :: resta = pb :: restb :=
          hsame (suffix_refl _) (suffix_refl _) (by simp) (by simp) hhash
        exact ⟨suffix_refl _, heq ▸ suffix_refl _⟩
      · obtain ⟨hfirst, hsecond⟩ := @ih restb fun ha hb =>
          hsame (ha.trans (suffix_cons ..)) (hb.trans (suffix_cons ..))
        exact ⟨hfirst.trans (suffix_cons ..), hsecond.trans (suffix_cons ..)⟩

/-- Chains of one length with the same last block have a block in common. -/
theorem walkBack_ne_nil {first second : List StoredBlock} (hne : first ≠ [])
    (hlength : first.length = second.length) (hlast : first.getLast? = second.getLast?) :
    walkBack first second ≠ [] := by
  induction first generalizing second with
  | nil => exact absurd rfl hne
  | cons pa resta ih =>
    cases second with
    | nil => cases hlength
    | cons pb restb =>
      rw [walkBack]
      split_ifs with hhash
      · exact cons_ne_nil _ _
      · have hrest : resta.length = restb.length := by simpa using hlength
        by_cases hresta : resta = []
        · subst hresta
          have hrestb : restb = [] := eq_nil_of_length_eq_zero hrest.symm
          subst hrestb
          have heq : pa = pb := by simpa using hlast
          exact absurd (by rw [heq]) hhash
        · have hrestb : restb ≠ [] := by
            rintro rfl
            exact hresta (eq_nil_of_length_eq_zero hrest)
          rw [getLast?_cons_of_ne_nil hresta, getLast?_cons_of_ne_nil hrestb] at hlast
          exact ih hresta hrest hlast

/-- Entries of the index with the same hash have the same ancestors. -/
theorem BlockTree.eq_of_tipHash_eq {a b : List StoredBlock}
    (hold : tree.chainOf (tipHash old) = some old) (hnew : tree.chainOf (tipHash new) = some new)
    (ha : a <:+ old) (hb : b <:+ new) (hane : a ≠ []) (hbne : b ≠ [])
    (hhash : tipHash a = tipHash b) : a = b := by
  have hfirst := tree.ancestors hold ha hane
  have hsecond := tree.ancestors hnew hb hbne
  rw [hhash, hsecond] at hfirst
  exact (Option.some.inj hfirst).symm

/-- A stored chain ends in the genesis block. -/
theorem StoredChain.getLast (h : StoredChain env keys genesis chain coins) :
    ∃ last, chain.getLast? = some last ∧ last.pindex.hashBlock = env.params.hashGenesisBlock := by
  induction h with
  | @genesis kernel ctx st undo hvtx hhash hheight hview hok =>
    refine ⟨_, getLast?_singleton .., ?_⟩
    obtain ⟨hprologue, -, hfinished⟩ := connectBlock_of_ok hok
    obtain ⟨nClaims, nStatus, hentry⟩ := hfinished.pindex_eq
    calc (connectBlock env kernel ctx [] false st).state.pindex.hashBlock
        = (loopStart env kernel [] false st).pindex.hashBlock := by
          rw [hentry]
          rfl
      _ = st.pindex.hashBlock := CBlockIndex.hashBlock_of_unstaked_eq (unstaked_loopStart st)
      _ = st.block.getHash env.host.hash256 := hashBlock_of_prologue hprologue
      _ = env.params.hashGenesisBlock := hhash
  | connect hchain hview hheight hbound hnot hflag hother hfree hok ih =>
    obtain ⟨last, hlast, hhash⟩ := ih
    exact ⟨last, by rw [getLast?_cons_of_ne_nil hchain.ne_nil, hlast], hhash⟩

/-- The fork lies on both chains. -/
theorem lastCommonAncestor_suffix (hold : tree.chainOf (tipHash old) = some old)
    (hnew : tree.chainOf (tipHash new) = some new) :
    lastCommonAncestor old new <:+ old ∧ lastCommonAncestor old new <:+ new := by
  obtain ⟨hfirst, hsecond⟩ := @walkBack_suffix (old.drop (old.length - new.length))
    (new.drop (new.length - old.length)) fun ha hb =>
      BlockTree.eq_of_tipHash_eq hold hnew (ha.trans (drop_suffix ..))
        (hb.trans (drop_suffix ..))
  exact ⟨hfirst.trans (drop_suffix ..), hsecond.trans (drop_suffix ..)⟩

private theorem getLast?_drop_of_lt {n : ℕ} (hn : n < chain.length) :
    (chain.drop n).getLast? = chain.getLast? := by
  rw [getLast?_drop, if_neg (by omega)]

theorem lastCommonAncestor_ne_nil (hold : tree.chainOf (tipHash old) = some old)
    (hnew : tree.chainOf (tipHash new) = some new)
    (holdChain : StoredChain env keys genesis old oldCoins)
    (hnewChain : StoredChain env keys genesis new newCoins) : lastCommonAncestor old new ≠ [] := by
  have holdPos := length_pos_of_ne_nil holdChain.ne_nil
  have hnewPos := length_pos_of_ne_nil hnewChain.ne_nil
  obtain ⟨last, hlast, hhash⟩ := holdChain.getLast
  obtain ⟨last', hlast', hhash'⟩ := hnewChain.getLast
  -- both chains end in the block with the hash of the genesis block
  have hsuffix {chain : List StoredBlock} {last : StoredBlock} (h : chain.getLast? = some last) :
      [last] <:+ chain := by
    obtain ⟨front, rfl⟩ := getLast?_eq_some_iff.mp h
    exact suffix_append ..
  have heq : [last] = [last'] := BlockTree.eq_of_tipHash_eq hold hnew (hsuffix hlast)
    (hsuffix hlast') (by simp) (by simp) (hhash.trans hhash'.symm)
  refine walkBack_ne_nil ?_ ?_ ?_
  · rw [ne_eq, drop_eq_nil_iff]
    omega
  · rw [length_drop, length_drop]
    omega
  · rw [getLast?_drop_of_lt (by omega), getLast?_drop_of_lt (by omega), hlast, hlast',
      singleton_inj.mp heq]

/-! ## Parts of a stored chain -/

section

variable (h : StoredChain env keys genesis chain coins)
include h

theorem StoredChain.suffix (hrest : rest <:+ chain)
    (hne : rest ≠ []) : ∃ base, StoredChain env keys genesis rest base := by
  induction chain generalizing coins with
  | nil => exact absurd (suffix_nil.mp hrest) hne
  | cons stored below ih =>
    rcases suffix_cons_iff.mp hrest with rfl | hbelow
    · exact ⟨coins, h⟩
    · have hbelowNe : below ≠ [] := by
        rintro rfl
        exact hne (suffix_nil.mp hbelow)
      obtain ⟨view, -, hchain, -⟩ := h.extends hbelowNe
      exact ih hchain hbelow

theorem StoredChain.tipHeight_eq : tipHeight chain = chain.length - 1 := by
  cases chain with
  | nil => exact absurd rfl h.ne_nil
  | cons stored below =>
    rw [length_cons, Nat.add_sub_cancel]
    exact h.height

theorem StoredChain.hash_of_single
    (hlength : chain.length = 1) {coin : Coin} (hcoin : coins outpoint = some coin) :
    outpoint.hash = genesis.getHash env.host.hash256 := by
  obtain ⟨stored, rfl⟩ := length_eq_one_iff.mp hlength
  rw [h.coins_single] at hcoin
  rcases mem_or_of_writeAll hcoin with hmem | hnone
  · exact hash_of_mem_createdIn (mem_map_of_mem hmem)
  · cases hnone

/-- A genesis output that a branch touches is spent at its tip. -/
theorem StoredChain.coins_of_touched {count : ℕ}
    (hcount : count < chain.length) (hmem : outpoint ∈ touchedByBranch env (chain.take count))
    (hhash : outpoint.hash = genesis.getHash env.host.hash256) : coins outpoint = none := by
  obtain ⟨base, hbelow⟩ := h.suffix (drop_suffix count chain)
    (by rw [ne_eq, drop_eq_nil_iff]; omega)
  refine branch_induction (P := fun n chain coins =>
    outpoint ∈ touchedByBranch env (chain.take n) → coins outpoint = none)
    ?_ hbelow ?_ h hcount hmem
  · exact fun hmem => absurd hmem (by simp [touchedByBranch])
  · intro n stored rest view final _ hextends _ _ ih hmem
    rw [take_succ_cons, touchedByBranch_cons] at hmem
    rcases hextends.applies.genesis_cases hextends.not_genesis hhash with
      ⟨hnot, hsame⟩ | ⟨-, hnone⟩
    · exact hsame.trans (ih ((mem_append.mp hmem).resolve_left hnot))
    · exact hnone

end

/-- The outputs that a branch has created and left unspent have the times that the block
files have for them. -/
def KeepsTimes (env : Env) (branch : List StoredBlock) (coins : COutPoint → Option Coin) : Prop :=
  ∀ outpoint ∈ touchedByBranch env branch, ∀ coin ∈ coins outpoint,
    timeOnDisk env (branchTxs branch) outpoint = some coin.nTime

/-- What is put on the touched outpoints has to have the right times, and the rest has to be
there already. -/
theorem overlay_eq_iff {branch : List StoredBlock} {entries : COutPoint → Option Coin} :
    overlay (touchedByBranch env branch) (withTimesOnDisk env (branchTxs branch) coins) entries =
        coins ↔
      (∀ outpoint ∉ touchedByBranch env branch, entries outpoint = coins outpoint) ∧
        KeepsTimes env branch coins := by
  have htime {outpoint : COutPoint} (hmem : outpoint ∈ touchedByBranch env branch) :
      withTimesOnDisk env (branchTxs branch) coins outpoint = coins outpoint ↔
        ∀ coin ∈ coins outpoint, timeOnDisk env (branchTxs branch) outpoint = some coin.nTime := by
    have htouched : ∃ entry ∈ branchTxs branch, outpoint ∈ touched env entry.1 entry.2 := by
      obtain ⟨stored, hstored, hblock⟩ := mem_flatMap.mp hmem
      obtain ⟨tx, htx, htouch⟩ := mem_flatMap.mp hblock
      exact ⟨(stored.pindex, tx), mem_flatMap.mpr ⟨stored, hstored,
        mem_map_of_mem (mem_reverse.mpr htx)⟩, htouch⟩
    obtain ⟨entry, hentry⟩ := Option.isSome_iff_exists.mp
      (find?_isSome.mpr (htouched.imp fun entry h => ⟨h.1, decide_eq_true h.2⟩))
    unfold withTimesOnDisk timeOnDisk
    rw [hentry]
    cases hcoin : coins outpoint with
    | none => simp
    | some coin =>
      simp only [Option.map_some, Option.getD_some, Option.some.injEq, Option.mem_def,
        forall_eq']
      exact ⟨fun hsame => congrArg Coin.nTime hsame, fun hsame => by rw [hsame]; rfl⟩
  constructor
  · intro h
    refine ⟨fun outpoint hmem => ?_, fun outpoint hmem => (htime hmem).mp ?_⟩
    · rw [← congrFun h outpoint, overlay_of_notMem hmem]
    · exact (overlay_of_mem hmem).symm.trans (congrFun h outpoint)
  · rintro ⟨hrest, htimes⟩
    funext outpoint
    by_cases hmem : outpoint ∈ touchedByBranch env branch
    · rw [overlay_of_mem hmem, (htime hmem).mpr (htimes outpoint hmem)]
    · rw [overlay_of_notMem hmem, hrest outpoint hmem]

/-! ## From a null tip -/

section

variable (hnew : StoredChain env keys genesis new newCoins)
include hnew

/-- Without an old tip only the blocks after the genesis block are rolled forward. -/
theorem replayChains_null (db : CCoinsViewDB) : replayChains env keys [] new db = .ok
      ⟨overlay (touchedByBranch env (new.take (new.length - 1)))
        (withTimesOnDisk env (branchTxs (new.take (new.length - 1))) newCoins) db.coins,
        tipHash new, []⟩ := by
  have hpos := length_pos_of_ne_nil hnew.ne_nil
  obtain ⟨base, hbelow⟩ := hnew.suffix (drop_suffix (new.length - 1) new)
    (by rw [ne_eq, drop_eq_nil_iff]; omega)
  have hforward := hnew.rollforward_eq hbelow (by omega) ⟨db.coins, 0⟩
  have hheight : tipHeight new - tipHeight [] = new.length - 1 := by
    rw [hnew.tipHeight_eq]
    rfl
  have hback : rollback env keys (0 - 0) [] ⟨db.coins, 0⟩ = some ⟨db.coins, 0⟩ := rfl
  calc replayChains env keys [] new db
      = .ok ⟨(rollforward env (tipHeight new - tipHeight []) new ⟨db.coins, 0⟩).coins,
          tipHash new, []⟩ := by
        simp only [replayChains, isEmpty_nil, if_true, length_nil, Bool.not_true,
          Bool.false_and, Bool.false_eq_true, if_false, hback]
    _ = _ := by rw [hheight, hforward]

theorem replayBlocks_null (hnewIndex : tree.chainOf (tipHash new) = some new)
    (written : List (COutPoint × Option Coin)) : replayBlocks env keys tree
      (interruptedWrite ⟨fun _ => none, tipHash [], []⟩ written (tipHash new)) =
      .ok ⟨overlay (touchedByBranch env (new.take (new.length - 1)))
        (withTimesOnDisk env (branchTxs (new.take (new.length - 1))) newCoins)
        (writeEntries (fun _ => none) written), tipHash new, []⟩ := by
  have htip : oldTip ⟨fun _ => none, tipHash [], []⟩ = 0 := rfl
  simp only [replayBlocks, interruptedWrite, hnewIndex, htip, if_true]
  rw [replayChains_null hnew]

/-- What no later block touches is missing if nothing had been written. -/
theorem replayBlocks_null_nil (hnewIndex : tree.chainOf (tipHash new) = some new)
    (hmem : outpoint ∉ touchedByBranch env (new.take (new.length - 1))) :
    ∃ db, replayBlocks env keys tree
        (interruptedWrite ⟨fun _ => none, tipHash [], []⟩ [] (tipHash new)) = .ok db ∧
      db.coins outpoint = none :=
  ⟨_, replayBlocks_null hnew hnewIndex [], overlay_of_notMem hmem⟩

/-- Nothing of the genesis block is restored, so its outputs have to be spent already. -/
theorem null_recovers_iff :
    (∀ written : List (COutPoint × Option Coin), (∀ entry ∈ written, entry.2 = newCoins entry.1) →
      overlay (touchedByBranch env (new.take (new.length - 1)))
        (withTimesOnDisk env (branchTxs (new.take (new.length - 1))) newCoins)
        (writeEntries (fun _ => none) written) = newCoins) ↔
      (∀ outpoint : COutPoint, outpoint.hash = genesis.getHash env.host.hash256 →
        newCoins outpoint = none) ∧ KeepsTimes env (new.take (new.length - 1)) newCoins := by
  have hpos := length_pos_of_ne_nil hnew.ne_nil
  constructor
  · intro hall
    -- nothing had been written
    obtain ⟨hnothing, htimes⟩ := overlay_eq_iff.mp (hall [] (by simp))
    refine ⟨fun outpoint hhash => ?_, htimes⟩
    by_cases hmem : outpoint ∈ touchedByBranch env (new.take (new.length - 1))
    · exact hnew.coins_of_touched (by omega) hmem hhash
    · exact (hnothing outpoint hmem).symm
  · rintro ⟨hspent, htimes⟩ written hwritten
    refine overlay_eq_iff.mpr ⟨fun outpoint hmem => ?_, htimes⟩
    obtain ⟨base, hbelow⟩ := hnew.suffix (drop_suffix (new.length - 1) new)
      (by rw [ne_eq, drop_eq_nil_iff]; omega)
    have hbase : newCoins outpoint = base outpoint :=
      hnew.coins_of_notMem hbelow (by omega) outpoint hmem
    have hnone : newCoins outpoint = none := by
      by_contra hne
      -- what was there after the genesis block is one of its outputs
      refine hne (hspent outpoint ?_)
      obtain ⟨coin, hcoin⟩ := Option.ne_none_iff_exists'.mp (hbase ▸ hne)
      exact hbelow.hash_of_single (by rw [length_drop]; omega) hcoin
    rw [writeEntries_eq hwritten]
    by_cases hwas : outpoint ∈ written.map Prod.fst
    · exact overlay_of_mem hwas
    · rw [overlay_of_notMem hwas, hnone]

end

/-! ## From another tip -/

/-- The blocks of the old chain that are rolled back. -/
def oldBranch (old new : List StoredBlock) : List StoredBlock :=
  old.take (old.length - (lastCommonAncestor old new).length)

/-- The blocks of the new chain that are rolled forward. -/
def newBranch (old new : List StoredBlock) : List StoredBlock :=
  new.take (tipHeight new - tipHeight (lastCommonAncestor old new))

section Fork

variable (hkeys : keys.Restores) (hold : StoredChain env keys genesis old oldCoins)
  (hnew : StoredChain env keys genesis new newCoins)
  (holdIndex : tree.chainOf (tipHash old) = some old)
  (hnewIndex : tree.chainOf (tipHash new) = some new)
variable {db : CCoinsViewDB}

include hold hnew holdIndex hnewIndex

/-- The blocks above the fork are as many as the heights say. -/
theorem tipHeight_sub : tipHeight new - tipHeight (lastCommonAncestor old new) =
      new.length - (lastCommonAncestor old new).length := by
  have hne := lastCommonAncestor_ne_nil holdIndex hnewIndex hold hnew
  obtain ⟨-, hsuffix⟩ := lastCommonAncestor_suffix holdIndex hnewIndex
  obtain ⟨base, hfork⟩ := hnew.suffix hsuffix hne
  have hforkPos := length_pos_of_ne_nil hne
  have hle := hsuffix.length_le
  rw [hnew.tipHeight_eq, hfork.tipHeight_eq]
  omega

/-- What the replay does once the fork is found. -/
theorem replayChains_eq (db : CCoinsViewDB) : replayChains env keys old new db =
      match rollback env keys (old.length - (lastCommonAncestor old new).length) old
        ⟨db.coins, 0⟩ with
      | none => .error .disconnectFailed
      | some cache => .ok ⟨(rollforward env (new.length - (lastCommonAncestor old new).length) new
          cache).coins, tipHash new, []⟩ := by
  have hne := lastCommonAncestor_ne_nil holdIndex hnewIndex hold hnew
  have hheight := tipHeight_sub hold hnew holdIndex hnewIndex
  have holdEmpty : old.isEmpty = false := by simp [hold.ne_nil]
  have hforkEmpty : (lastCommonAncestor old new).isEmpty = false := by simp [hne]
  have hdef := replayChains.eq_def env keys old new db
  simp only [holdEmpty, hforkEmpty, Bool.and_false, Bool.false_eq_true, if_false, hheight] at hdef
  exact hdef

include hkeys

/-- With an unspent genesis output where one is needed, a part of the entries is enough if the
times are kept, and without one the replay fails. -/
theorem replayChains_ok_iff {written : List (COutPoint × Option Coin)}
    (hwritten : ∀ entry ∈ written, entry.2 = newCoins entry.1)
    (hdb : db.coins = writeEntries oldCoins written) :
    replayChains env keys old new db = .ok ⟨newCoins, tipHash new, []⟩ ↔
      (BranchSpendsGenesis env genesis (oldBranch old new) →
        HasOutput (writeEntries oldCoins written) (genesis.getHash env.host.hash256)) ∧
      KeepsTimes env (newBranch old new) newCoins := by
  have hne := lastCommonAncestor_ne_nil holdIndex hnewIndex hold hnew
  have hforkPos := length_pos_of_ne_nil hne
  obtain ⟨holdSuffix, hnewSuffix⟩ := lastCommonAncestor_suffix holdIndex hnewIndex
  obtain ⟨base, hfork⟩ := hnew.suffix hnewSuffix hne
  have holdLe := holdSuffix.length_le
  have hnewLe := hnewSuffix.length_le
  have holdBelow : StoredChain env keys genesis
      (old.drop (old.length - (lastCommonAncestor old new).length)) base := by
    rwa [← suffix_iff_eq_drop.mp holdSuffix]
  have hnewBelow : StoredChain env keys genesis
      (new.drop (new.length - (lastCommonAncestor old new).length)) base := by
    rwa [← suffix_iff_eq_drop.mp hnewSuffix]
  have hmixed := @writeEntries_eq oldCoins newCoins written hwritten
  have hregular : Regular env.host.hash256 genesis db.coins := by
    rw [hdb, hmixed]
    exact hnew.regular.overlay hold.regular _
  rw [replayChains_eq hold hnew holdIndex hnewIndex, ← hdb]
  rcases @rollback_someIff env keys genesis old oldCoins
    (old.length - (lastCommonAncestor old new).length) base hkeys hold holdBelow (by omega)
    ⟨db.coins, 0⟩ hregular with ⟨hhas, cache, hback, hcache⟩ | ⟨hnone, hback⟩
  · refine Iff.trans ?_ (and_iff_right hhas).symm
    rw [hback, newBranch, tipHeight_sub hold hnew holdIndex hnewIndex]
    dsimp only
    rw [hnew.rollforward_eq hnewBelow (by omega), hcache, Except.ok.injEq, CCoinsViewDB.mk.injEq,
      and_iff_left ⟨rfl, rfl⟩, overlay_eq_iff, and_iff_right]
    -- An outpoint on neither branch has one coin throughout.
    intro outpoint hnotNew
    dsimp only
    have hnewBase := hnew.coins_of_notMem hnewBelow (by omega) outpoint hnotNew
    by_cases hmem : outpoint ∈ touchedByBranch env
        (old.take (old.length - (lastCommonAncestor old new).length))
    · rw [overlay_of_mem hmem, hnewBase]
    · have holdBase := hold.coins_of_notMem holdBelow (by omega) outpoint hmem
      rw [overlay_of_notMem hmem, hdb, hmixed]
      by_cases hwas : outpoint ∈ written.map Prod.fst
      · rw [overlay_of_mem hwas]
      · rw [overlay_of_notMem hwas, holdBase, hnewBase]
  · refine iff_of_false ?_ fun hboth => hnone hboth.1
    rw [hback]
    exact fun hdone => nomatch hdone

end Fork

variable {txid : Uint256}

/-! ## The condition -/

/-- The tip that the database was last flushed at, with its coins; null before the first
flush. -/
inductive FlushedTip (env : Env) (keys : PubKeys) (genesis : CTransaction) (tree : BlockTree) :
    List StoredBlock → (COutPoint → Option Coin) → Prop
  | null : FlushedTip env keys genesis tree [] fun _ => none
  | tip {chain : List StoredBlock} {coins : COutPoint → Option Coin}
      (hchain : StoredChain env keys genesis chain coins)
      (hindex : tree.chainOf (tipHash chain) = some chain) (hhash : tipHash chain ≠ 0) :
      FlushedTip env keys genesis tree chain coins

/-- Whatever part of the entries has been written at the crash, the replay succeeds and
leaves the coins at the new tip. -/
def Recovers (env : Env) (keys : PubKeys) (tree : BlockTree) (old : List StoredBlock)
    (oldCoins : COutPoint → Option Coin) (new : List StoredBlock)
    (newCoins : COutPoint → Option Coin) : Prop :=
  ∀ written : List (COutPoint × Option Coin), (∀ entry ∈ written, entry.2 = newCoins entry.1) →
    replayBlocks env keys tree
      (CCoinsViewDB.interruptedWrite ⟨oldCoins, tipHash old, []⟩ written (tipHash new)) =
      .ok ⟨newCoins, tipHash new, []⟩

/-- Some genesis output is unspent at both tips, so a crash cannot remove it. -/
def KeepsOutput (oldCoins newCoins : COutPoint → Option Coin) (txid : Uint256) : Prop :=
  ∃ n < MAX_OUTPUTS_PER_BLOCK,
    oldCoins ⟨txid, UInt32.ofNat n⟩ ≠ none ∧ newCoins ⟨txid, UInt32.ofNat n⟩ ≠ none

theorem KeepsOutput.hasOutput (h : KeepsOutput oldCoins newCoins txid)
    {written : List (COutPoint × Option Coin)}
    (hwritten : ∀ entry ∈ written, entry.2 = newCoins entry.1) :
    HasOutput (writeEntries oldCoins written) txid := by
  obtain ⟨n, hn, holdSome, hnewSome⟩ := h
  refine ⟨n, hn, ?_⟩
  rw [writeEntries_eq hwritten]
  by_cases hmem : (⟨txid, UInt32.ofNat n⟩ : COutPoint) ∈ written.map Prod.fst
  · rw [overlay_of_mem hmem]
    exact hnewSome
  · rw [overlay_of_notMem hmem]
    exact holdSome

/-- The crash that leaves as few outputs of a transaction as possible: what the new tip has
spent is erased, and what it has created is not written. -/
theorem exists_written_of_not_keepsOutput (h : ¬ KeepsOutput oldCoins newCoins txid) :
    ∃ written : List (COutPoint × Option Coin),
      (∀ entry ∈ written, entry.2 = newCoins entry.1) ∧
        ¬ HasOutput (writeEntries oldCoins written) txid := by
  let outpoints := ((range MAX_OUTPUTS_PER_BLOCK).map fun n =>
    (⟨txid, UInt32.ofNat n⟩ : COutPoint)).filter fun outpoint => newCoins outpoint = none
  have hwritten : ∀ entry ∈ outpoints.map fun outpoint => (outpoint, newCoins outpoint),
      entry.2 = newCoins entry.1 := by
    intro entry hentry
    obtain ⟨outpoint, -, rfl⟩ := mem_map.mp hentry
    rfl
  refine ⟨_, hwritten, ?_⟩
  rintro ⟨n, hn, hsome⟩
  rw [writeEntries_eq hwritten, map_map] at hsome
  by_cases hspent : newCoins ⟨txid, UInt32.ofNat n⟩ = none
  · have hmem : (⟨txid, UInt32.ofNat n⟩ : COutPoint) ∈
        outpoints.map (Prod.fst ∘ fun outpoint => (outpoint, newCoins outpoint)) := by
      refine mem_map.mpr ⟨_, mem_filter.mpr ⟨?_, by simpa using hspent⟩, rfl⟩
      exact mem_map.mpr ⟨n, mem_range.mpr hn, rfl⟩
    rw [overlay_of_mem hmem] at hsome
    exact hsome hspent
  · refine h ⟨n, hn, ?_, hspent⟩
    rwa [overlay_of_notMem] at hsome
    intro hmem
    obtain ⟨outpoint, houtpoint, heq⟩ := mem_map.mp hmem
    obtain rfl : outpoint = ⟨txid, UInt32.ofNat n⟩ := heq
    exact hspent (by simpa using (mem_filter.mp houtpoint).2)

/-- The replay after a crash leaves the coins at the new tip exactly if, on a first flush, the
genesis outputs are spent there, if a genesis output survives wherever the old branch has spent
one, and if the outputs of the new branch have the times of the block files. -/
theorem replay_recovers_iff (hkeys : keys.Restores)
    (hold : FlushedTip env keys genesis tree old oldCoins)
    (hnew : StoredChain env keys genesis new newCoins)
    (hnewIndex : tree.chainOf (tipHash new) = some new) :
    Recovers env keys tree old oldCoins new newCoins ↔
      (old = [] → ∀ outpoint : COutPoint, outpoint.hash = genesis.getHash env.host.hash256 →
        newCoins outpoint = none) ∧
      (BranchSpendsGenesis env genesis (oldBranch old new) →
        KeepsOutput oldCoins newCoins (genesis.getHash env.host.hash256)) ∧
      KeepsTimes env (newBranch old new) newCoins := by
  cases hold with
  | null =>
    have hbranch : ¬ BranchSpendsGenesis env genesis (oldBranch [] new) := by
      rintro ⟨stored, hmem, -⟩
      exact absurd hmem (by simp [oldBranch])
    have hheight : newBranch [] new = new.take (new.length - 1) := by
      rw [newBranch, hnew.tipHeight_eq, lastCommonAncestor, drop_nil, walkBack]
      · rfl
      · rintro _ _ _ _ ⟨⟩
    unfold Recovers
    simp only [replayBlocks_null hnew hnewIndex, Except.ok.injEq, CCoinsViewDB.mk.injEq, and_true,
      hbranch, false_implies, forall_const, true_and, hheight]
    exact null_recovers_iff hnew
  | tip hchain hindex hhash =>
    have hreplay (written : List (COutPoint × Option Coin)) :
        replayBlocks env keys tree
          (CCoinsViewDB.interruptedWrite ⟨oldCoins, tipHash old, []⟩ written (tipHash new)) =
          replayChains env keys old new
            (CCoinsViewDB.interruptedWrite ⟨oldCoins, tipHash old, []⟩ written
              (tipHash new)) := by
      have htip : CCoinsViewDB.oldTip ⟨oldCoins, tipHash old, []⟩ = tipHash old := if_neg hhash
      simp only [replayBlocks, CCoinsViewDB.interruptedWrite, hnewIndex, htip, hindex]
      rw [if_neg hhash]
    constructor
    · intro hall
      have hdone (written : List (COutPoint × Option Coin))
          (hwritten : ∀ entry ∈ written, entry.2 = newCoins entry.1) :=
        (replayChains_ok_iff hkeys hchain hnew hindex hnewIndex hwritten rfl).mp
          ((hreplay written).symm.trans (hall written hwritten))
      refine ⟨fun hnil => absurd hnil hchain.ne_nil, fun hspends => ?_, (hdone [] (by simp)).2⟩
      by_contra hkeeps
      obtain ⟨written, hwritten, hnone⟩ := exists_written_of_not_keepsOutput hkeeps
      exact hnone ((hdone written hwritten).1 hspends)
    · rintro ⟨-, hkeeps, htimes⟩ written hwritten
      rw [hreplay]
      exact (replayChains_ok_iff hkeys hchain hnew hindex hnewIndex hwritten rfl).mpr
        ⟨fun hspends => (hkeeps hspends).hasOutput hwritten, htimes⟩

namespace SmallNet

/-- An index with one fork. -/
def forkTree (root left right : StoredBlock) (hleft : left.pindex.hashBlock ≠ root.pindex.hashBlock)
    (hright : right.pindex.hashBlock ≠ root.pindex.hashBlock) : BlockTree where
  chainOf hash := if hash = root.pindex.hashBlock then some [root]
    else if hash = left.pindex.hashBlock then some [left, root]
    else if hash = right.pindex.hashBlock then some [right, root]
    else none
  hash_eq := by
    intro hash chain hchain
    split_ifs at hchain with hroot hfirst hsecond
    all_goals cases hchain
    · exact ⟨by simp, hroot.symm⟩
    · exact ⟨by simp, hfirst.symm⟩
    · exact ⟨by simp, hsecond.symm⟩
  ancestors := by
    have hrest {rest : List StoredBlock} {top : StoredBlock} (hsuffix : rest <:+ [top, root])
        (hne : rest ≠ []) : rest = [top, root] ∨ rest = [root] := by
      rcases List.suffix_cons_iff.mp hsuffix with rfl | hsuffix
      · exact .inl rfl
      · rcases List.suffix_cons_iff.mp hsuffix with rfl | hsuffix
        · exact .inr rfl
        · exact absurd (List.suffix_nil.mp hsuffix) hne
    intro hash chain rest hchain hsuffix hne
    split_ifs at hchain with hroot hfirst hsecond
    all_goals cases hchain
    · rcases List.suffix_cons_iff.mp hsuffix with rfl | hsuffix
      · exact if_pos rfl
      · exact absurd (List.suffix_nil.mp hsuffix) hne
    · rcases hrest hsuffix hne with rfl | rfl
      · exact (if_neg hleft).trans (if_pos rfl)
      · exact if_pos rfl
    · rcases hrest hsuffix hne with rfl | rfl
      · refine (if_neg hright).trans ((if_neg fun heq => hfirst ?_).trans (if_pos rfl))
        exact hsecond.trans heq
      · exact if_pos rfl

section ForkTree

variable {root left right : StoredBlock}
  (hleft : left.pindex.hashBlock ≠ root.pindex.hashBlock)
  (hright : right.pindex.hashBlock ≠ root.pindex.hashBlock)

theorem chainOf_left :
    (forkTree root left right hleft hright).chainOf (tipHash [left, root]) = some [left, root] :=
  (if_neg hleft).trans (if_pos rfl)

theorem chainOf_right (hne : right.pindex.hashBlock ≠ left.pindex.hashBlock) :
    (forkTree root left right hleft hright).chainOf (tipHash [right, root]) = some [right, root] :=
  (if_neg hright).trans ((if_neg hne).trans (if_pos rfl))

end ForkTree

/-- The genesis block on disk. -/
def storedGenesis (env : Env) : StoredBlock :=
  ⟨(connect env [] blank genesisBlock).state.pindex, genesisBlock, []⟩

/-- The block after the genesis block on disk. -/
def storedSecond (env : Env) (block : CBlock) : StoredBlock :=
  ⟨(connect env (genesisChain env) (reach env [genesisBlock]).1 block).state.pindex, block,
    undoWriteToDisk SmallNet.keys env.host.hash256 (tipHash [storedGenesis env])
      (undoOf env (second env block).pindex (second env block).view block.vtx)⟩

theorem storedChain_genesis {env : Env} (hok : passed (connect env [] blank genesisBlock).result)
    (hhash : genesisBlock.getHash env.host.hash256 = env.params.hashGenesisBlock) :
    StoredChain env SmallNet.keys genesisTx [storedGenesis env]
      (reach env [genesisBlock]).1.view.coins := by
  have hreach : (reach env [genesisBlock]).1 = (connect env [] blank genesisBlock).state := by
    simp only [reach]
  have hpass := passed_iff.mp hok
  rw [hreach]
  unfold storedGenesis connect at *
  exact @genesis env SmallNet.keys genesisTx stakeKernel ordinary
    (onTop blank ([] : IndexChain).length genesisBlock) [] rfl hhash rfl rfl hpass

theorem storedChain_second {env : Env} {block : CBlock}
    (hfirst : passed (connect env [] blank genesisBlock).result)
    (hhash : genesisBlock.getHash env.host.hash256 = env.params.hashGenesisBlock)
    (hfresh : block.fChecked = false)
    (hnot : block.getHash env.host.hash256 ≠ env.params.hashGenesisBlock)
    (hother : ∀ tx ∈ block.vtx, tx.getHash env.host.hash256 ≠ genesisTx.getHash env.host.hash256)
    (hfree : ¬ OverwritesCoin env (second env block))
    (hok : passed (connect env (genesisChain env) (reach env [genesisBlock]).1 block).result) :
    StoredChain env SmallNet.keys genesisTx [storedSecond env block, storedGenesis env]
      (connect env (genesisChain env) (reach env [genesisBlock]).1 block).state.view.coins := by
  have hentries : entriesOf [storedGenesis env] = genesisChain env := by
    simp only [entriesOf, storedGenesis, map_cons, map_nil, genesisChain, reach]
  have hlength : (genesisChain env).length = 1 := by
    rw [← hentries, entriesOf, length_map, length_singleton]
  have hpass := passed_iff.mp hok
  have hchain := storedChain_genesis hfirst hhash
  have hblock : (second env block).block = block := rfl
  have hview : (second env block).view.coins = (reach env [genesisBlock]).1.view.coins := by
    simp only [second, onTop]
  have hheight : (second env block).pindex.nHeight = [storedGenesis env].length := rfl
  have hstate : onTop (reach env [genesisBlock]).1 1 block = second env block := by
    rw [second]
  unfold storedSecond connect at *
  rw [hlength, ← hentries, hstate] at *
  rw [← hblock] at hfresh hnot hother
  exact @StoredChain.connect env SmallNet.keys genesisTx stakeKernel ordinary (second env block)
    [storedGenesis env] _ hchain hview hheight (by simp) hnot
    (fun hchecked => absurd hchecked (by rw [hfresh]; simp)) hother hfree hpass

theorem not_overwritesCoin {env : Env} {block : CBlock} {first : CTransaction}
    (hfirst : block.vtx.head? = some first)
    (hfree : ∀ outpoint ∈ (createdIn env (second env block).pindex first).map Prod.fst,
      (second env block).view.coins outpoint = none) : ¬ OverwritesCoin env (second env block) := by
  rintro ⟨coinbase, hcoinbase, outpoint, hmem, hne⟩
  have hblock : (second env block).block = block := rfl
  rw [hblock, hfirst] at hcoinbase
  obtain rfl : first = coinbase := Option.some.inj hcoinbase
  exact hne (hfree outpoint hmem)

/-- The coins after the second block. -/
def coinsAfter (env : Env) (block : CBlock) : COutPoint → Option Coin :=
  (connect env (genesisChain env) (reach env [genesisBlock]).1 block).state.view.coins

/-- The chain of two blocks on disk. -/
def storedChain (env : Env) (block : CBlock) : List StoredBlock :=
  [storedSecond env block, storedGenesis env]

theorem storedChain_snapshotBlock : StoredChain (node false false) SmallNet.keys genesisTx
    (storedChain (node false false) snapshotBlock) (coinsAfter (node false false) snapshotBlock) :=
  storedChain_second (by decide +kernel) (by decide +kernel) (by decide +kernel)
    (by decide +kernel) (by decide +kernel)
    (@not_overwritesCoin _ _ (coinbase 1) rfl (by decide +kernel)) (by decide +kernel)

theorem storedChain_unclaimedBlock : StoredChain (node false false) SmallNet.keys genesisTx
    (storedChain (node false false) unclaimedBlock)
    (coinsAfter (node false false) unclaimedBlock) :=
  storedChain_second (by decide +kernel) (by decide +kernel) (by decide +kernel)
    (by decide +kernel) (by decide +kernel)
    (@not_overwritesCoin _ _ (coinbase 1) rfl (by decide +kernel)) (by decide +kernel)

end SmallNet

open SmallNet in
/-- A reorganisation between two blocks that both spend a genesis output. -/
theorem replay_recovers_reorganisation :
    ∃ tree : BlockTree, Recovers (node false false) SmallNet.keys tree
      (storedChain (node false false) snapshotBlock)
      (SmallNet.coinsAfter (node false false) snapshotBlock)
      (storedChain (node false false) unclaimedBlock)
      (SmallNet.coinsAfter (node false false) unclaimedBlock) := by
  have hleft : (storedSecond (node false false) snapshotBlock).pindex.hashBlock ≠
      (storedGenesis (node false false)).pindex.hashBlock := by decide +kernel
  have hright : (storedSecond (node false false) unclaimedBlock).pindex.hashBlock ≠
      (storedGenesis (node false false)).pindex.hashBlock := by decide +kernel
  refine ⟨forkTree _ _ _ hleft hright, (replay_recovers_iff restores_keys
    (.tip storedChain_snapshotBlock (chainOf_left hleft hright) (by decide +kernel))
    storedChain_unclaimedBlock (chainOf_right hleft hright (by decide +kernel))).mpr
    ⟨fun hnil => absurd hnil (List.cons_ne_nil _ _), fun _ => ⟨1, by decide, ?_, ?_⟩, ?_⟩⟩
  · decide +kernel
  · decide +kernel
  · unfold KeepsTimes
    decide +kernel

open SmallNet in
/-- If the first flush stops after the first batch, the replay succeeds and the genesis
outputs that are unspent at the new tip are missing. -/
theorem first_flush_loses_genesis_outputs : StoredChain (node false false) SmallNet.keys genesisTx
        (storedChain (node false false) unclaimedBlock)
        (SmallNet.coinsAfter (node false false) unclaimedBlock) ∧
      (SmallNet.coinsAfter (node false false) unclaimedBlock (genesisPrevout 1)).isSome ∧
      ∃ (tree : BlockTree) (db : CCoinsViewDB),
        tree.chainOf (tipHash (storedChain (node false false) unclaimedBlock)) =
            some (storedChain (node false false) unclaimedBlock) ∧
          replayBlocks (node false false) SmallNet.keys tree
            (CCoinsViewDB.interruptedWrite ⟨fun _ => none, tipHash [], []⟩ []
              (tipHash (storedChain (node false false) unclaimedBlock))) = .ok db ∧
          db.coins (genesisPrevout 1) = none := by
  have hright : (storedSecond (node false false) unclaimedBlock).pindex.hashBlock ≠
      (storedGenesis (node false false)).pindex.hashBlock := by decide +kernel
  have huntouched : genesisPrevout 1 ∉ touchedByBranch (node false false)
      ((storedChain (node false false) unclaimedBlock).take
        ((storedChain (node false false) unclaimedBlock).length - 1)) := by decide +kernel
  obtain ⟨db, hreplay, hlost⟩ := replayBlocks_null_nil storedChain_unclaimedBlock
    (chainOf_left hright hright) huntouched
  exact ⟨storedChain_unclaimedBlock, by decide +kernel, _, db, chainOf_left hright hright, hreplay,
    hlost⟩

end Patchcoin
