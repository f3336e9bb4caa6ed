import Patchcoin.Lib.Grouping
import Patchcoin.Primitives.Read
import Patchcoin.Script.Destination
import Patchcoin.SmallNet

/-!
# Importing the Peercoin snapshot

`PopulateAndValidateSnapshotForeign` reads the coins of the Peercoin chain from a file and
sorts them by their scripts: the scripts of key hashes, with their balances, and the other
scripts, with their coins.  Scripts go through their addresses, so that an output to a key
and one to the hash of the key come under one script.  Canvas outputs and outputs without
value are left out, and every other coin is counted once.

The loop reads all coins into one object.  A script that cannot be decompressed leaves the
script of the coin before in its place, and one that is too long is appended to it.
-/

namespace Patchcoin

open PrefixCode Reader List

/-! ## The file -/

section Format

variable (keys : PubKeys)

/-- `ScriptCompression::Unser` into a script that may hold something already. -/
def readScriptInto (script : CScript) : Reader CScript :=
  (readVarInt 32).andThen fun nSize =>
    if nSize < nSpecialScripts then
      (readBytes (getSpecialScriptSize nSize)).andThen fun vch =>
        done ((decompressScript keys nSize vch).getD script)
    else if MAX_SCRIPT_SIZE < nSize - nSpecialScripts then
      (readBytes (nSize - nSpecialScripts)).andThen fun _ => done (script.pushOp OP_RETURN)
    else (readBytes (nSize - nSpecialScripts)).andThen fun bytes => done ⟨bytes⟩

/-- `Coin::Unserialize`. -/
def readCoinInto (coin : Coin) : Reader Coin :=
  (readVarInt 32).andThen fun code => (readVarInt 64).andThen fun v =>
    (readScriptInto keys coin.out.scriptPubKey).andThen fun scriptPubKey =>
      (readVarInt 32).andThen fun nFlag => (readVarInt 32).andThen fun nTime =>
        done ⟨⟨(UInt64.ofNat (decompressAmount v)).toInt64, scriptPubKey⟩, code % 2 == 1,
          nFlag % 2 == 1, code / 2, UInt32.ofNat nTime⟩

/-- `Coin::Serialize`. -/
def serCoin (coin : Coin) : List UInt8 :=
  writeVarInt 32 (coin.nHeight * 2 + coin.fCoinBase.toNat) ++ (serCompressedOut keys coin.out ++
    (writeVarInt 32 coin.fCoinStake.toNat ++ writeVarInt 32 coin.nTime.toNat))

/-- `SnapshotManager::GetHash` of the two maps. -/
def hashSnapshot (hash256 : List UInt8 → Uint256) (valid_scripts : Std.ExtTreeMap CScript ℤ compare)
    (incompatible_scripts : Std.ExtTreeMap CScript (List (COutPoint × Coin)) compare) : Uint256 :=
  hash256 (lengthPrefixed (fun entry => serScript entry.1 ++ serInt64 (Int64.ofInt entry.2))
      valid_scripts.toList ++
    lengthPrefixed (fun entry => serScript entry.1 ++
      lengthPrefixed (fun stored => serOutPoint stored.1 ++ serCoin keys stored.2) entry.2)
      incompatible_scripts.toList)

end Format

/-! ## What is read back -/

section RoundTrip

variable {keys : PubKeys} {coin : Coin} (hkeys : keys.Restores)
  (hvalue : moneyRange coin.out.value = true)
  (hsize : coin.out.scriptPubKey.size ≤ MAX_SCRIPT_SIZE)
include hkeys hvalue hsize

theorem reads_readCoinInto (hheight : coin.nHeight < 2 ^ 31) (object : Coin) :
    Reads (readCoinInto keys object) (serCoin keys coin) coin := by
  have hbase := Bool.toNat_le coin.fCoinBase
  have hstake := Bool.toNat_le coin.fCoinStake
  have hfields : (coin.nHeight * 2 + coin.fCoinBase.toNat) / 2 = coin.nHeight ∧
      ((coin.nHeight * 2 + coin.fCoinBase.toNat) % 2 == 1) = coin.fCoinBase ∧
      (coin.fCoinStake.toNat % 2 == 1) = coin.fCoinStake := by
    refine ⟨by omega, ?_, by cases coin.fCoinStake <;> rfl⟩
    rw [Nat.mul_add_mod_self_right]
    cases coin.fCoinBase <;> rfl
  have hcode := @reads_readVarInt 32 (coin.nHeight * 2 + coin.fCoinBase.toNat) (by omega) (by omega)
  have hamount := @reads_readVarInt 64 _ (by omega)
    (compressAmount_lt coin.out.nValue.toUInt64.toNat)
  have hscript : Reads (readScriptInto keys object.out.scriptPubKey)
      (serCompressedScript keys coin.out.scriptPubKey) coin.out.scriptPubKey :=
    reads_readScriptOr hkeys hsize
  have hflag := @reads_readVarInt 32 coin.fCoinStake.toNat (by omega) (by omega)
  have htime := (@reads_readVarInt 32 coin.nTime.toNat (by omega) coin.nTime.toNat_lt).map
    fun nTime => Coin.mk coin.out coin.fCoinBase coin.fCoinStake coin.nHeight (UInt32.ofNat nTime)
  rw [UInt32.ofNat_toNat] at htime
  rw [serCoin, serCompressedOut, append_assoc]
  refine hcode.andThen (hamount.andThen (hscript.andThen (hflag.andThen ?_)))
  rw [decompress_value hvalue, hfields.1, hfields.2.1, hfields.2.2]
  exact htime

/-- A coin within the limits is read back from the coin database and from the undo file,
and nothing else is read. -/
theorem coin_round_trip : (coin.nHeight < 2 ^ 31 → ∀ object : Coin,
      Reads (readCoinInto keys object) (serCoin keys coin) coin) ∧
    (coin.nHeight < 2 ^ 30 → Reads (readTxInUndo keys) (serTxInUndo keys coin) coin) :=
  ⟨reads_readCoinInto hkeys hvalue hsize, reads_readTxInUndo hkeys hvalue hsize⟩

end RoundTrip

/-- A coin of the genesis block. -/
theorem coin_round_trip_genesis :
    ∃ (keys : PubKeys) (coin : Coin), keys.Restores ∧ coin.nHeight = 0 ∧
      moneyRange coin.out.value = true ∧ coin.out.scriptPubKey.size ≤ MAX_SCRIPT_SIZE ∧
      Reads (readCoinInto keys coin) (serCoin keys coin) coin ∧
      Reads (readTxInUndo keys) (serTxInUndo keys coin) coin := by
  have hkeys : PubKeys.Restores ⟨fun _ => false, fun _ => none⟩ :=
    fun _ _ _ hvalid => absurd hvalid Bool.false_ne_true
  have hround := @coin_round_trip _ ⟨SmallNet.genesisOut, true, false, 0, 7⟩ hkeys (by decide)
    (by decide)
  exact ⟨_, _, hkeys, rfl, by decide, by decide, hround.1 (by decide) _, hround.2 (by decide)⟩

/-- `Coin()`. -/
def Coin.null : Coin := ⟨⟨-1, ⟨[]⟩⟩, false, false, 0, 0⟩

/-! ## The loop -/

section

variable (env : Env) (keys : PubKeys)

/-- Whether an address is the one that the canvas is painted with. -/
def isCanvas (outAddress : String) : Bool :=
  "pc1qcanvas0000000000000000000000000000000000000".toList.isPrefixOf outAddress.toList

/-- What becomes of a coin. -/
inductive CoinClass
  /-- the import fails -/
  | refused
  /-- no value -/
  | worthless
  | canvas
  /-- counted in the balance of a script -/
  | compatible (script : CScript)
  /-- kept in the list of a script -/
  | incompatible (script : CScript)
  deriving DecidableEq

/-- The tests of the loop on a coin. -/
def classifyCoin (coin : Coin) : CoinClass :=
  if 0 < coin.out.value then
    match extractDestination env.host.hash160 coin.out.scriptPubKey with
    | none => .refused
    | some dest =>
      let outAddress := env.host.encodeDestination dest
      if isCanvas outAddress then .canvas
      else
        let normalized := env.host.decodeDestination outAddress
        if !isValidDestination normalized then .refused
        else match dest with
          | .PKHash _ => .compatible (getScriptForDestination normalized)
          | _ => .incompatible (getScriptForDestination normalized)
  else .worthless

/-- The variables of the loop. -/
structure ImportLoop where
  /-- the object that the coins are read into -/
  coin : Coin := Coin.null
  coins_processed : ℕ := 0
  valid_scripts : Std.ExtTreeMap CScript ℤ compare := ∅
  incompatible_scripts : Std.ExtTreeMap CScript (List (COutPoint × Coin)) compare := ∅

/-- A coin that was read is counted: the maps after it, unless the import fails. -/
def countCoin (outpoint : COutPoint) (coin : Coin) (st : ImportLoop) : Option ImportLoop :=
  let st := { st with coin, coins_processed := st.coins_processed + 1 }
  match classifyCoin env coin with
  | .refused => none
  | .worthless => some st
  | .canvas => some st
  | .compatible script => some { st with
      valid_scripts := st.valid_scripts.insert script
        (st.valid_scripts.getD script 0 + coin.out.value) }
  | .incompatible script => some { st with
      incompatible_scripts := st.incompatible_scripts.insert script
        (st.incompatible_scripts.getD script [] ++ [(outpoint, coin)]) }

/-- Whether the loop looks if a shutdown was requested.  A canvas output skips the test. -/
def looksForShutdown (coin : Coin) (st : ImportLoop) : Bool :=
  classifyCoin env coin != .canvas && decide (st.coins_processed % 120000 = 0)

/-- The loop of `PopulateAndValidateSnapshotForeign`, which reads so many coins: `none`
where it returns false.  `shutdownRequested` tells whether a shutdown is requested when so
many coins were processed. -/
def importCoins (shutdownRequested : ℕ → Bool) :
    ℕ → ImportLoop → List UInt8 → Option (ImportLoop × List UInt8)
  | 0, st, coins_file => some (st, coins_file)
  | coins_left + 1, st, coins_file =>
    match readOutPoint coins_file with
    | none => none
    | some (outpoint, coins_file) =>
      match readCoinInto keys st.coin coins_file with
      | none => none
      | some (coin, coins_file) =>
        if 0xffffffff ≤ outpoint.n then none
        else match countCoin env outpoint coin st with
          | none => none
          | some st =>
            if looksForShutdown env coin st && shutdownRequested st.coins_processed then
              none
            else importCoins shutdownRequested coins_left st coins_file

/-- How the import ends without a success: it returns false, or an assertion fails. -/
inductive ImportFail
  | refused
  | aborted
  deriving DecidableEq

/-- `UpdateAllScriptPubKeys`. -/
def updateAllScriptPubKeys (st : ImportLoop) : Snapshot where
  scriptPubKeys := st.valid_scripts
  incompatibleScriptPubKeys := st.incompatible_scripts
  hashScripts := hashSnapshot keys env.host.hash256 st.valid_scripts st.incompatible_scripts

/-- `PopulateAndValidateSnapshotForeign`, on a file that announces so many coins. -/
def populateAndValidateSnapshotForeign (shutdownRequested : ℕ → Bool) (coins_count : ℕ)
    (coins_file : List UInt8) (manager : Snapshot) : Outcome Snapshot ImportFail Unit :=
  match importCoins env keys shutdownRequested coins_count {} coins_file with
  | none => .fail manager .refused
  | some (st, coins_file) =>
    if (readOutPoint coins_file).isSome then .fail manager .refused
    else
      let manager := updateAllScriptPubKeys env keys st
      if manager.hashScripts = env.params.hashPeercoinSnapshot then .pass manager
      else .fail manager .aborted

end

/-! ## What the loop has counted -/

section Spec

variable (env : Env) (keys : PubKeys)

/-- The coins of a file, as they are read one after the other into one object. -/
def readCoins : ℕ → Coin → Reader (List (COutPoint × Coin))
  | 0, _ => done []
  | count + 1, coin => readOutPoint.andThen fun outpoint =>
    (readCoinInto keys coin).andThen fun coin =>
      (readCoins count coin).andThen fun rest => done ((outpoint, coin) :: rest)

def isCanvasOutput (coin : Coin) : Bool :=
  ((extractDestination env.host.hash160 coin.out.scriptPubKey).map fun dest =>
    isCanvas (env.host.encodeDestination dest)).getD false

/-- The coins with a positive value that are not canvas outputs. -/
def countedCoins (stored : List (COutPoint × Coin)) : List (COutPoint × Coin) :=
  stored.filter fun entry => decide (0 < entry.2.out.value) && !isCanvasOutput env entry.2

/-- The coins of a class. -/
def coinsOf (coinClass : CoinClass) (stored : List (COutPoint × Coin)) : List (COutPoint × Coin) :=
  stored.filter fun entry => classifyCoin env entry.2 = coinClass

/-- What a coin adds to a balance. -/
def balanceEntry (entry : COutPoint × Coin) : Option (CScript × ℤ) :=
  match classifyCoin env entry.2 with
  | .compatible script => some (script, entry.2.out.value)
  | _ => none

/-- What a coin adds to a list. -/
def listEntry (entry : COutPoint × Coin) : Option (CScript × List (COutPoint × Coin)) :=
  match classifyCoin env entry.2 with
  | .incompatible script => some (script, [entry])
  | _ => none

/-- The maps hold the given coins. -/
structure ImportLoop.Holds (st : ImportLoop) (stored : List (COutPoint × Coin)) : Prop where
  balances : Grouping.Collects 0 (· + ·) st.valid_scripts (stored.filterMap (balanceEntry env))
  lists : Grouping.Collects [] (· ++ ·) st.incompatible_scripts (stored.filterMap (listEntry env))

end Spec

variable {env : Env} {keys : PubKeys}
variable {st' : ImportLoop}

theorem ImportLoop.holds_nil : ({} : ImportLoop).Holds env [] :=
  ⟨Grouping.collects_nil, Grouping.collects_nil⟩

/-- One coin is counted. -/
theorem ImportLoop.Holds.countCoin {st : ImportLoop} {stored : List (COutPoint × Coin)}
    {outpoint : COutPoint} {coin : Coin} (hholds : st.Holds env stored)
    (h : countCoin env outpoint coin st = some st') :
    st'.Holds env (stored ++ [(outpoint, coin)]) ∧ st'.coin = coin ∧
      classifyCoin env coin ≠ .refused := by
  obtain ⟨hbalances, hlists⟩ := hholds
  unfold Patchcoin.countCoin at h
  cases hclass : classifyCoin env coin with
  | refused =>
    rw [hclass] at h
    cases h
  | compatible script =>
    rw [hclass] at h
    cases h
    refine ⟨⟨?_, ?_⟩, rfl, by simp⟩
    · simpa [balanceEntry, hclass, Grouping.add] using hbalances.add script coin.out.value
    · simpa [listEntry, hclass] using hlists
  | incompatible script =>
    rw [hclass] at h
    cases h
    refine ⟨⟨?_, ?_⟩, rfl, by simp⟩
    · simpa [balanceEntry, hclass] using hbalances
    · simpa [listEntry, hclass, Grouping.add] using hlists.add script [(outpoint, coin)]
  | _ =>
    rw [hclass] at h
    cases h
    refine ⟨⟨?_, ?_⟩, rfl, by simp⟩
    · simpa [balanceEntry, hclass] using hbalances
    · simpa [listEntry, hclass] using hlists

/-- The loop counts the coins that it reads. -/
theorem ImportLoop.Holds.importCoins {shutdownRequested : ℕ → Bool} {count : ℕ} {st : ImportLoop}
    {coins_file rest : List UInt8} {before : List (COutPoint × Coin)} (hholds : st.Holds env before)
    (h : importCoins env keys shutdownRequested count st coins_file = some (st', rest)) :
    ∃ stored, readCoins keys count st.coin coins_file = some (stored, rest) ∧
      st'.Holds env (before ++ stored) ∧
      ∀ entry ∈ stored, classifyCoin env entry.2 ≠ .refused := by
  induction count generalizing st coins_file before with
  | zero =>
    rw [Patchcoin.importCoins] at h
    cases h
    exact ⟨[], rfl, by simpa using hholds, by simp⟩
  | succ count ih =>
    rw [Patchcoin.importCoins] at h
    split at h
    · cases h
    · rename_i outpoint file hpoint
      split at h
      · cases h
      · rename_i coin file' hcoin
        split_ifs at h
        split at h
        · cases h
        · rename_i next hcounted
          split_ifs at h
          obtain ⟨hnext, hsame, hclass⟩ := hholds.countCoin hcounted
          obtain ⟨stored, hread, hall, hrefused⟩ := ih hnext h
          refine ⟨(outpoint, coin) :: stored, ?_, ?_, ?_⟩
          · rw [hsame] at hread
            rw [readCoins, andThen_eq_some_iff]
            refine ⟨outpoint, file, hpoint, ?_⟩
            rw [andThen_eq_some_iff]
            refine ⟨coin, file', hcoin, ?_⟩
            rw [andThen_eq_some_iff]
            exact ⟨stored, rest, hread, rfl⟩
          · simpa using hall
          · exact forall_mem_cons.mpr ⟨hclass, hrefused⟩

/-! ## The maps of the snapshot -/

theorem valuesAt_balances (stored : List (COutPoint × Coin)) (script : CScript) :
    Grouping.valuesAt (stored.filterMap (balanceEntry env)) script =
      (coinsOf env (.compatible script) stored).map fun entry => entry.2.out.value := by
  induction stored with
  | nil => rfl
  | cons entry rest ih =>
    unfold coinsOf Grouping.valuesAt at ih ⊢
    cases hclass : classifyCoin env entry.2 with
    | compatible other =>
      by_cases hsame : other = script <;> simp [balanceEntry, hclass, hsame, ih]
    | _ => simp [balanceEntry, hclass, ih]

theorem valuesAt_lists (stored : List (COutPoint × Coin)) (script : CScript) :
    Grouping.valuesAt (stored.filterMap (listEntry env)) script =
      (coinsOf env (.incompatible script) stored).map fun entry => [entry] := by
  induction stored with
  | nil => rfl
  | cons entry rest ih =>
    unfold coinsOf Grouping.valuesAt at ih ⊢
    cases hclass : classifyCoin env entry.2 with
    | incompatible other =>
      by_cases hsame : other = script <;> simp [listEntry, hclass, hsame, ih]
    | _ => simp [listEntry, hclass, ih]

theorem foldl_append_singletons {α : Type*} (values start : List α) :
    (values.map fun value => [value]).foldl (· ++ ·) start = start ++ values := by
  induction values generalizing start with
  | nil => simp
  | cons value rest ih => rw [map_cons, foldl_cons, ih]; simp

theorem ImportLoop.Holds.balance {st : ImportLoop} {stored : List (COutPoint × Coin)}
    (h : st.Holds env stored) (script : CScript) : st.valid_scripts[script]? =
      if coinsOf env (.compatible script) stored = [] then none
      else some ((coinsOf env (.compatible script) stored).map
        fun entry => entry.2.out.value).sum := by
  rw [h.balances script, valuesAt_balances, ← sum_eq_foldl]
  simp only [map_eq_nil_iff]

theorem ImportLoop.Holds.list {st : ImportLoop} {stored : List (COutPoint × Coin)}
    (h : st.Holds env stored) (script : CScript) : st.incompatible_scripts[script]? =
      if coinsOf env (.incompatible script) stored = [] then none
      else some (coinsOf env (.incompatible script) stored) := by
  rw [h.lists script, valuesAt_lists, foldl_append_singletons]
  simp only [map_eq_nil_iff, nil_append]

/-- The class of a coin that does not make the import fail, if addresses can be decoded. -/
theorem classifyCoin_cases
    (hdecode : ∀ script dest, extractDestination env.host.hash160 script = some dest →
      env.host.decodeDestination (env.host.encodeDestination dest) = dest)
    {coin : Coin} (h : classifyCoin env coin ≠ .refused) :
    (coin.out.value ≤ 0 ∧ classifyCoin env coin = .worthless) ∨
      (isCanvasOutput env coin = true ∧ classifyCoin env coin = .canvas) ∨
      (0 < coin.out.value ∧ isCanvasOutput env coin = false ∧
        ∃ dest, extractDestination env.host.hash160 coin.out.scriptPubKey = some dest ∧
          classifyCoin env coin = match dest with
            | .PKHash _ => .compatible (getScriptForDestination dest)
            | _ => .incompatible (getScriptForDestination dest)) := by
  by_cases hvalue : 0 < coin.out.value
  · cases hdest : extractDestination env.host.hash160 coin.out.scriptPubKey with
    | none =>
      unfold classifyCoin at h
      rw [if_pos hvalue, hdest] at h
      exact absurd rfl h
    | some dest =>
      have hcanvas : isCanvasOutput env coin = isCanvas (env.host.encodeDestination dest) := by
        unfold isCanvasOutput
        rw [hdest]
        rfl
      unfold classifyCoin at h ⊢
      rw [if_pos hvalue, hdest] at h ⊢
      dsimp only at h ⊢
      rw [hdecode _ dest hdest] at h ⊢
      split_ifs at h ⊢ with hpainted hinvalid
      · exact .inr (.inl ⟨hcanvas.trans hpainted, rfl⟩)
      · exact absurd rfl h
      · exact .inr (.inr ⟨hvalue, hcanvas.trans (Bool.eq_false_iff.mpr hpainted), dest, rfl, rfl⟩)
  · left
    unfold classifyCoin
    rw [if_neg hvalue]
    exact ⟨not_lt.mp hvalue, rfl⟩

/-- Every coin with a value that is no canvas output is counted once: in the balance of a
script, if it goes to a key hash, and otherwise in the list of a script. -/
structure Snapshot.Partitions (env : Env) (manager : Snapshot)
    (stored : List (COutPoint × Coin)) : Prop where
  /-- A coin that counts belongs to one script of one of the two maps. -/
  once : ∀ entry ∈ countedCoins env stored,
    ∃ dest, extractDestination env.host.hash160 entry.2.out.scriptPubKey = some dest ∧
      classifyCoin env entry.2 = match dest with
        | .PKHash _ => .compatible (getScriptForDestination dest)
        | _ => .incompatible (getScriptForDestination dest)
  /-- The other coins belong to none. -/
  others : ∀ entry ∈ stored, entry ∉ countedCoins env stored →
    classifyCoin env entry.2 = .worthless ∨ classifyCoin env entry.2 = .canvas
  balance : ∀ script, manager.scriptPubKeys[script]? =
    if coinsOf env (.compatible script) stored = [] then none
    else some ((coinsOf env (.compatible script) stored).map fun entry => entry.2.out.value).sum
  list : ∀ script, manager.incompatibleScriptPubKeys[script]? =
    if coinsOf env (.incompatible script) stored = [] then none
    else some (coinsOf env (.incompatible script) stored)
  disjoint : ∀ script, ¬ (script ∈ manager.scriptPubKeys ∧
    script ∈ manager.incompatibleScriptPubKeys)
  /-- A key is the script that is written for its own destination. -/
  canonical : ∀ script, script ∈ manager.scriptPubKeys ∨
    script ∈ manager.incompatibleScriptPubKeys →
      ∃ dest, extractDestination env.host.hash160 script = some dest ∧
        getScriptForDestination dest = script
  total : (manager.scriptPubKeys.toList.map Prod.snd).sum +
      (manager.incompatibleScriptPubKeys.toList.map fun entry =>
        (entry.2.map fun coin => coin.2.out.value).sum).sum =
    ((countedCoins env stored).map fun entry => entry.2.out.value).sum

/-! ## The partition -/

section Partition

variable {st : ImportLoop} {stored : List (COutPoint × Coin)}
variable {script : CScript} {coin : Coin}

theorem mem_coinsOf {α : Type} {coinClass : CoinClass} {value : α}
    (h : (if coinsOf env coinClass stored = [] then none else some value).isSome = true) :
    ∃ entry ∈ stored, classifyCoin env entry.2 = coinClass := by
  split_ifs at h with hnone
  · cases h
  · obtain ⟨entry, hentry⟩ := exists_mem_of_ne_nil _ hnone
    obtain ⟨hmem, hclass⟩ := mem_filter.mp hentry
    exact ⟨entry, hmem, of_decide_eq_true hclass⟩

variable (hdecode : ∀ script dest, extractDestination env.host.hash160 script = some dest →
  env.host.decodeDestination (env.host.encodeDestination dest) = dest)

include hdecode

/-- The script of a balance is the script of a key hash, and that of a list is the one of
another destination. -/
theorem ImportLoop.Holds.dest_of_mem {coinClass : CoinClass} (hholds : st.Holds env stored)
    (h : (script ∈ st.valid_scripts ∧ coinClass = .compatible script) ∨
      (script ∈ st.incompatible_scripts ∧ coinClass = .incompatible script)) :
    ∃ dest, extractDestination env.host.hash160 script = some dest ∧
      getScriptForDestination dest = script ∧
      (coinClass = .compatible script ↔ ∃ hash, dest = .PKHash hash) := by
  have hmem : ∃ entry ∈ stored, classifyCoin env entry.2 = coinClass := by
    rcases h with ⟨h, rfl⟩ | ⟨h, rfl⟩
    · rw [Std.ExtTreeMap.mem_iff_isSome_getElem?, hholds.balance] at h
      exact mem_coinsOf h
    · rw [Std.ExtTreeMap.mem_iff_isSome_getElem?, hholds.list] at h
      exact mem_coinsOf h
  obtain ⟨entry, -, hentry⟩ := hmem
  replace h := h.imp And.right And.right
  have hcounts : classifyCoin env entry.2 ≠ .refused := by
    rcases h with rfl | rfl <;> simp [hentry]
  rcases classifyCoin_cases hdecode hcounts with
    ⟨_, hclass⟩ | ⟨_, hclass⟩ | ⟨_, _, dest, hdest, hclass⟩
  · rcases h with rfl | rfl <;> cases hentry.symm.trans hclass
  · rcases h with rfl | rfl <;> cases hentry.symm.trans hclass
  · have hextract := extractDestination_getScriptForDestination hdest
    rcases h with rfl | rfl <;> cases dest <;> cases hentry.symm.trans hclass <;>
      exact ⟨_, hextract, rfl, by simp⟩

/-- A coin counts in one of the two sums just if it has a value and is no canvas output. -/
theorem value_of_entries {entry : COutPoint × Coin} (h : classifyCoin env entry.2 ≠ .refused) :
    (((balanceEntry env entry).map Prod.snd).getD 0) +
        (((listEntry env entry).map fun e => (e.2.map fun coin => coin.2.out.value).sum).getD 0) =
      if decide (0 < entry.2.out.value) && !isCanvasOutput env entry.2 then entry.2.out.value
      else 0 := by
  rcases classifyCoin_cases hdecode h with
    ⟨hvalue, hclass⟩ | ⟨hcanvas, hclass⟩ | ⟨hvalue, hcanvas, dest, _, hclass⟩
  · simp [balanceEntry, listEntry, hclass, hvalue.not_gt]
  · simp [balanceEntry, listEntry, hclass, hcanvas]
  · cases dest <;> simp [balanceEntry, listEntry, hclass, hcanvas, hvalue]

theorem sum_entries (hrefused : ∀ entry ∈ stored, classifyCoin env entry.2 ≠ .refused) :
    ((stored.filterMap (balanceEntry env)).map Prod.snd).sum +
        ((stored.filterMap (listEntry env)).map fun entry =>
          (entry.2.map fun coin => coin.2.out.value).sum).sum =
      ((countedCoins env stored).map fun entry => entry.2.out.value).sum := by
  induction stored with
  | nil => rfl
  | cons entry rest ih =>
    have hrest := ih fun other hother => hrefused other (.tail _ hother)
    have hentry := value_of_entries hdecode (hrefused entry mem_cons_self)
    have hcons {β : Type} (entryOf : COutPoint × Coin → Option β) (value : β → ℤ) :
        (((entry :: rest).filterMap entryOf).map value).sum =
          ((entryOf entry).map value).getD 0 + ((rest.filterMap entryOf).map value).sum := by
      cases h : entryOf entry <;> simp [h]
    have hcounted : ((countedCoins env (entry :: rest)).map fun entry => entry.2.out.value).sum =
        (if decide (0 < entry.2.out.value) && !isCanvasOutput env entry.2 then entry.2.out.value
          else 0) + ((countedCoins env rest).map fun entry => entry.2.out.value).sum := by
      unfold countedCoins
      rw [filter_cons]
      split_ifs <;> simp
    rw [hcons, hcons, hcounted, ← hrest, ← hentry]
    ring

/-- What the loop leaves is a partition of the coins that it read. -/
theorem ImportLoop.Holds.partitions (hholds : st.Holds env stored)
    (hrefused : ∀ entry ∈ stored, classifyCoin env entry.2 ≠ .refused) :
    (updateAllScriptPubKeys env keys st).Partitions env stored where
  once := by
    intro entry hentry
    obtain ⟨hmem, hcounts⟩ := mem_filter.mp hentry
    rw [Bool.and_eq_true, decide_eq_true_iff, Bool.not_eq_true'] at hcounts
    rcases classifyCoin_cases hdecode (hrefused entry hmem) with
      ⟨hvalue, _⟩ | ⟨hcanvas, _⟩ | ⟨_, _, hdest⟩
    · exact absurd hcounts.1 hvalue.not_gt
    · rw [hcounts.2] at hcanvas
      cases hcanvas
    · exact hdest
  others := by
    intro entry hentry hother
    rcases classifyCoin_cases hdecode (hrefused entry hentry) with
      ⟨_, hclass⟩ | ⟨_, hclass⟩ | ⟨hvalue, hcanvas, _⟩
    · exact .inl hclass
    · exact .inr hclass
    · refine absurd (mem_filter.mpr ⟨hentry, ?_⟩) hother
      simp [hvalue, hcanvas]
  balance := hholds.balance
  list := hholds.list
  disjoint := by
    rintro script ⟨hvalid, hlisted⟩
    obtain ⟨dest, hextract, -, hkey⟩ := hholds.dest_of_mem hdecode (.inl ⟨hvalid, rfl⟩)
    obtain ⟨dest', hextract', -, hother⟩ := hholds.dest_of_mem hdecode (.inr ⟨hlisted, rfl⟩)
    obtain rfl : dest = dest' := Option.some.inj (hextract.symm.trans hextract')
    exact absurd (hother.mpr (hkey.mp rfl)) (by simp)
  canonical := by
    rintro script (hvalid | hlisted)
    · obtain ⟨dest, hextract, hscript, -⟩ := hholds.dest_of_mem hdecode (.inl ⟨hvalid, rfl⟩)
      exact ⟨dest, hextract, hscript⟩
    · obtain ⟨dest, hextract, hscript, -⟩ := hholds.dest_of_mem hdecode (.inr ⟨hlisted, rfl⟩)
      exact ⟨dest, hextract, hscript⟩
  total := by
    have hbalances := hholds.balances.sum_toList id rfl fun _ _ => rfl
    have hlists := hholds.lists.sum_toList
      (fun coins => (coins.map fun coin => coin.2.out.value).sum) rfl
      fun first second => by rw [map_append, sum_append]
    calc (st.valid_scripts.toList.map Prod.snd).sum + (st.incompatible_scripts.toList.map
            fun entry => (entry.2.map fun coin => coin.2.out.value).sum).sum
        = ((stored.filterMap (balanceEntry env)).map Prod.snd).sum +
            ((stored.filterMap (listEntry env)).map fun entry =>
              (entry.2.map fun coin => coin.2.out.value).sum).sum := by
          rw [← hlists]
          exact congrArg (· + _) hbalances
      _ = _ := sum_entries hdecode hrefused

end Partition

/-- An import that succeeds partitions the coins of the file; one that returns false leaves
the snapshot as it was. -/
theorem populateAndValidateSnapshotForeign_partitions
    (hdecode : ∀ script dest, extractDestination env.host.hash160 script = some dest →
      env.host.decodeDestination (env.host.encodeDestination dest) = dest)
    (shutdownRequested : ℕ → Bool) (coins_count : ℕ) (coins_file : List UInt8)
    (manager : Snapshot) :
    let outcome := populateAndValidateSnapshotForeign env keys shutdownRequested coins_count
      coins_file manager
    (outcome.result = .ok () → ∃ stored rest,
      readCoins keys coins_count Coin.null coins_file = some (stored, rest) ∧
        readOutPoint rest = none ∧ outcome.state.Partitions env stored) ∧
      (outcome.result = .error .refused → outcome.state = manager) := by
  dsimp only
  unfold populateAndValidateSnapshotForeign
  cases hloop : importCoins env keys shutdownRequested coins_count {} coins_file with
  | none => exact ⟨nofun, fun _ => rfl⟩
  | some found =>
    obtain ⟨st, rest⟩ := found
    dsimp only
    split_ifs with hleft hhash
    · exact ⟨nofun, fun _ => rfl⟩
    · refine ⟨fun _ => ?_, nofun⟩
      obtain ⟨stored, hread, hholds, hrefused⟩ := ImportLoop.holds_nil.importCoins hloop
      refine ⟨stored, rest, hread, Option.not_isSome_iff_eq_none.mp hleft, ?_⟩
      exact hholds.partitions hdecode hrefused
    · exact ⟨nofun, nofun⟩

/-! ## An import -/

namespace SmallNet

/-- Bytes as text. -/
def text (bytes : List UInt8) : String :=
  String.ofList (bytes.map fun byte => Char.ofNat byte.toNat)

/-- The bytes of a text. -/
def bytesOf (address : String) : List UInt8 := address.toList.map fun char => UInt8.ofNat char.toNat

theorem bytesOf_text (bytes : List UInt8) : bytesOf (text bytes) = bytes := by
  unfold bytesOf text
  rw [String.toList_ofList, map_map]
  have hbyte (byte : UInt8) : UInt8.ofNat (Char.ofNat byte.toNat).toNat = byte := by
    have hvalid : byte.toNat.isValidChar := .inl (by have := byte.toNat_lt; omega)
    have hchar : (Char.ofNat byte.toNat).toNat = byte.toNat := by
      rw [Char.ofNat, dif_pos hvalid]
      rfl
    rw [hchar, UInt8.ofNat_toNat]
  calc bytes.map ((fun char : Char => UInt8.ofNat char.toNat) ∘ fun byte => Char.ofNat byte.toNat)
      = bytes.map id := map_congr_left fun byte _ => hbyte byte
    _ = bytes := map_id bytes

def scriptText (dest : CTxDestination) : String := text (getScriptForDestination dest).bytes

def textDestination (address : String) : CTxDestination :=
  (extractDestination host.hash160 ⟨bytesOf address⟩).getD .CNoDestination

/-- A host whose addresses are the bytes of the scripts. -/
def scriptAddresses : Host :=
  { host with
    encodeDestination := scriptText
    decodeDestination := textDestination }

theorem decode_scriptAddresses (script : CScript) (dest : CTxDestination)
    (h : extractDestination scriptAddresses.hash160 script = some dest) :
    scriptAddresses.decodeDestination (scriptAddresses.encodeDestination dest) = dest := by
  have hextract := extractDestination_getScriptForDestination h
  unfold scriptAddresses at hextract ⊢
  dsimp only at hextract ⊢
  unfold textDestination scriptText
  rw [bytesOf_text, hextract, Option.getD_some]

def payToScriptHash (n : UInt8) : CScript :=
  ⟨[OP_HASH160, 20, n] ++ List.replicate 19 0 ++ [OP_EQUAL]⟩

/-- A coin of the other chain, with its output point. -/
def foreignCoin (n : ℕ) (value : Int64) (script : CScript) : COutPoint × Coin :=
  (⟨BitVec.ofNat 256 n, 0⟩, ⟨⟨value, script⟩, false, false, 8, 0⟩)

/-- An output to a key, one to its hash, one without value and one to a script hash. -/
def foreignCoins : List (COutPoint × Coin) :=
  [foreignCoin 1 5 (payToPubKey 1), foreignCoin 2 6 (payToKeyHash 1),
    foreignCoin 3 0 (payToKeyHash 2), foreignCoin 4 7 (payToScriptHash 3)]

def noCurve : PubKeys := ⟨fun _ => false, fun _ => none⟩

def foreignFile : List UInt8 :=
  foreignCoins.flatMap fun entry => serOutPoint entry.1 ++ serCoin noCurve entry.2

/-- The snapshot that the file is imported as. -/
def foreignSnapshot : Snapshot :=
  updateAllScriptPubKeys (node false false) noCurve
    { valid_scripts := Std.ExtTreeMap.ofList [(payToKeyHash 1, (11 : ℤ))]
      incompatible_scripts :=
        Std.ExtTreeMap.ofList [(payToScriptHash 3, [foreignCoin 4 7 (payToScriptHash 3)])] }

def importer : Env :=
  { node false false with
    host := scriptAddresses
    params := { params with hashPeercoinSnapshot := foreignSnapshot.hashScripts } }

theorem foreignFile_partitions :
    (populateAndValidateSnapshotForeign importer noCurve (fun _ => false) 4 foreignFile
      snapshot).result = .ok () ∧
    ∃ stored rest, readCoins noCurve 4 Coin.null foreignFile = some (stored, rest) ∧
      readOutPoint rest = none ∧
      (populateAndValidateSnapshotForeign importer noCurve (fun _ => false) 4 foreignFile
        snapshot).state.Partitions importer stored := by
  have hok : (populateAndValidateSnapshotForeign importer noCurve (fun _ => false) 4 foreignFile
      snapshot).result = .ok () := by
    exact passed_iff.mp (by decide +kernel)
  exact ⟨hok, (populateAndValidateSnapshotForeign_partitions decode_scriptAddresses
    (fun _ => false) 4 foreignFile snapshot).1 hok⟩

end SmallNet

end Patchcoin
