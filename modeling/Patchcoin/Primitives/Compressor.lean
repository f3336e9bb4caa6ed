import Patchcoin.Lib.Reader
import Patchcoin.Primitives.Transaction

/-!
# Compressed outputs

The coin database and the undo files store outputs in a shorter form: amounts
lose their trailing zeros, and the common script patterns are written as a
number below six and a hash or half a public key.  Every other script is
written with its length, counted from six on.

An uncompressed public key is stored by its first coordinate and one bit of the
second, so reading it back takes a square root on the curve.  That is the only
place where the format needs arithmetic of the curve, and the only assumption
the round trip makes about it.
-/

namespace Patchcoin

open Reader List

variable {script : CScript} {keys : PubKeys}

/-! ## Amounts -/

/-- The loop of `CompressAmount`: divide by ten while this leaves no rest, at most
so many times. -/
def stripZeros : ℕ → ℕ → ℕ → ℕ × ℕ
  | 0, n, e => (n, e)
  | fuel + 1, n, e => if n % 10 = 0 then stripZeros fuel (n / 10) (e + 1) else (n, e)

/-- `CompressAmount`, in 64 bits. -/
def compressAmount (n : ℕ) : ℕ :=
  if n = 0 then 0
  else
    let stripped := stripZeros 9 n 0
    if stripped.2 < 9 then
      (1 + (stripped.1 / 10 * 9 + stripped.1 % 10 - 1) * 10 + stripped.2) % 2 ^ 64
    else (1 + (stripped.1 - 1) * 10 + 9) % 2 ^ 64

/-- `DecompressAmount`, in 64 bits; the final loop multiplies by ten `e` times. -/
def decompressAmount (x : ℕ) : ℕ :=
  if x = 0 then 0
  else
    let e := (x - 1) % 10
    let x := (x - 1) / 10
    let n := if e < 9 then x / 9 * 10 + (x % 9 + 1) else x + 1
    n * 10 ^ e % 2 ^ 64

theorem stripZeros_spec {fuel n e m k : ℕ} (hn : n ≠ 0) (h : stripZeros fuel n e = (m, k)) :
    m * 10 ^ k = n * 10 ^ e ∧ m ≤ n ∧ m ≠ 0 ∧ e ≤ k ∧ k ≤ e + fuel ∧
      (k < e + fuel → m % 10 ≠ 0) := by
  induction fuel generalizing n e with
  | zero =>
    obtain ⟨rfl, rfl⟩ := Prod.mk.inj h
    exact ⟨rfl, le_rfl, hn, le_rfl, le_rfl, fun hlt => absurd hlt (by omega)⟩
  | succ fuel ih =>
    rw [stripZeros] at h
    split_ifs at h with hzero
    · obtain ⟨hvalue, hle, hne, hlow, hhigh, hdigit⟩ := ih (by omega) h
      refine ⟨?_, by omega, hne, by omega, by omega, fun hlt => hdigit (by omega)⟩
      calc m * 10 ^ k = n / 10 * 10 ^ (e + 1) := hvalue
        _ = n / 10 * 10 * 10 ^ e := by ring
        _ = n * 10 ^ e := by rw [Nat.div_mul_cancel (Nat.dvd_of_mod_eq_zero hzero)]
    · obtain ⟨rfl, rfl⟩ := Prod.mk.inj h
      exact ⟨rfl, le_rfl, hn, le_rfl, by omega, fun _ => hzero⟩

/-- Amounts far below 64 bits survive the compression. -/
theorem decompressAmount_compressAmount {n : ℕ} (hn : n < 2 ^ 60) :
    decompressAmount (compressAmount n) = n := by
  by_cases hzero : n = 0
  · rw [hzero]
    rfl
  obtain ⟨m, e, hstrip⟩ : ∃ m e, stripZeros 9 n 0 = (m, e) := ⟨_, _, rfl⟩
  obtain ⟨hvalue, hle, hne, -, hhigh, hdigit⟩ := stripZeros_spec hzero hstrip
  rw [pow_zero, mul_one] at hvalue
  rw [compressAmount, if_neg hzero, hstrip]
  dsimp only
  split_ifs with he
  · have hlast := hdigit (by omega)
    rw [Nat.mod_eq_of_lt (by omega), decompressAmount, if_neg (by omega)]
    have hexp : (1 + (m / 10 * 9 + m % 10 - 1) * 10 + e - 1) % 10 = e := by omega
    have hrest : (1 + (m / 10 * 9 + m % 10 - 1) * 10 + e - 1) / 10 =
        m / 10 * 9 + m % 10 - 1 := by omega
    have hdigits : (m / 10 * 9 + m % 10 - 1) / 9 * 10 +
        ((m / 10 * 9 + m % 10 - 1) % 9 + 1) = m := by omega
    dsimp only
    rw [hexp, hrest, if_pos he, hdigits, hvalue, Nat.mod_eq_of_lt (by omega)]
  · have hnine : e = 9 := by omega
    rw [Nat.mod_eq_of_lt (by omega), decompressAmount, if_neg (by omega)]
    have hexp : (1 + (m - 1) * 10 + 9 - 1) % 10 = 9 := by omega
    have hrest : (1 + (m - 1) * 10 + 9 - 1) / 10 + 1 = m := by omega
    dsimp only
    rw [hexp, if_neg (by omega), hrest, ← hnine, hvalue, Nat.mod_eq_of_lt (by omega)]

theorem compressAmount_lt (n : ℕ) : compressAmount n < 2 ^ 64 := by
  unfold compressAmount
  dsimp only
  split_ifs <;> omega

/-! ## Scripts -/

/-- Arithmetic of the curve, as `CPubKey` offers it. -/
structure PubKeys where
  /-- `CPubKey::IsFullyValid` -/
  isFullyValid : List UInt8 → Bool
  /-- `CPubKey::Decompress` -/
  decompress : List UInt8 → Option (List UInt8)

/-- The last byte of an uncompressed key decides which of the two square roots
the second coordinate is. -/
def parity (pubkey : List UInt8) : UInt8 := pubkey.getD 64 0 &&& 1

/-- Decompressing half a valid key gives the key back. -/
def PubKeys.Restores (keys : PubKeys) : Prop :=
  ∀ pubkey : List UInt8, pubkey.length = CPubKey.SIZE → pubkey.take 1 = [4] →
    keys.isFullyValid pubkey = true →
    keys.decompress ((2 + parity pubkey) :: (pubkey.drop 1).take 32) = some pubkey

/-- A script of so many bytes that starts and ends with the given ones; what is
between them. -/
def between (script : CScript) (first : List UInt8) (length : ℕ) (last : List UInt8) :
    Option (List UInt8) :=
  if script.size = first.length + length + last.length ∧
      script.bytes.take first.length = first ∧
      script.bytes.drop (first.length + length) = last then
    some ((script.bytes.drop first.length).take length)
  else none

/-- `IsToKeyID` -/
def isToKeyID (script : CScript) : Option (List UInt8) :=
  between script [OP_DUP, OP_HASH160, 20] 20 [OP_EQUALVERIFY, OP_CHECKSIG]

/-- `IsToScriptID` -/
def isToScriptID (script : CScript) : Option (List UInt8) :=
  between script [OP_HASH160, 20] 20 [OP_EQUAL]

/-- `IsToPubKey` -/
def isToPubKey (keys : PubKeys) (script : CScript) : Option (List UInt8) :=
  match between script [33] 33 [OP_CHECKSIG] with
  | some pubkey => if pubkey.take 1 = [2] ∨ pubkey.take 1 = [3] then some pubkey else none
  | none =>
    match between script [65] 65 [OP_CHECKSIG] with
    | some pubkey =>
      if pubkey.take 1 = [4] ∧ keys.isFullyValid pubkey = true then some pubkey else none
    | none => none

/-- `CompressScript` -/
def compressScript (keys : PubKeys) (script : CScript) : Option (List UInt8) :=
  match isToKeyID script with
  | some keyID => some (0 :: keyID)
  | none =>
    match isToScriptID script with
    | some scriptID => some (1 :: scriptID)
    | none =>
      match isToPubKey keys script with
      | some pubkey =>
        if pubkey.take 1 = [4] then
          some ((4 ||| parity pubkey) :: (pubkey.drop 1).take 32)
        else some pubkey
      | none => none

/-- `GetSpecialScriptSize` -/
def getSpecialScriptSize (nSize : ℕ) : ℕ :=
  if nSize = 0 ∨ nSize = 1 then 20
  else if nSize = 2 ∨ nSize = 3 ∨ nSize = 4 ∨ nSize = 5 then 32
  else 0

/-- `DecompressScript`; `none` if it returns false, and the script stays as it was. -/
def decompressScript (keys : PubKeys) (nSize : ℕ) (input : List UInt8) : Option CScript :=
  if nSize = 0 then
    some ⟨[OP_DUP, OP_HASH160, 20] ++ input ++ [OP_EQUALVERIFY, OP_CHECKSIG]⟩
  else if nSize = 1 then some ⟨[OP_HASH160, 20] ++ input ++ [OP_EQUAL]⟩
  else if nSize = 2 ∨ nSize = 3 then
    some ⟨[33] ++ (UInt8.ofNat nSize :: input) ++ [OP_CHECKSIG]⟩
  else if nSize = 4 ∨ nSize = 5 then
    (keys.decompress (UInt8.ofNat (nSize - 2) :: input)).map fun pubkey =>
      ⟨[65] ++ pubkey ++ [OP_CHECKSIG]⟩
  else none

def nSpecialScripts : ℕ := 6

/-- `ScriptCompression::Ser` -/
def serCompressedScript (keys : PubKeys) (script : CScript) : List UInt8 :=
  match compressScript keys script with
  | some compr => compr
  | none => writeVarInt 32 (script.size + nSpecialScripts) ++ script.bytes

/-- `ScriptCompression::Unser` into an empty script.  A script over the limit is
skipped, and a short invalid one takes its place. -/
def readCompressedScript (keys : PubKeys) : Reader CScript :=
  (readVarInt 32).andThen fun nSize =>
    if nSize < nSpecialScripts then
      (readBytes (getSpecialScriptSize nSize)).andThen fun vch =>
        done ((decompressScript keys nSize vch).getD ⟨[]⟩)
    else if MAX_SCRIPT_SIZE < nSize - nSpecialScripts then
      (readBytes (nSize - nSpecialScripts)).andThen fun _ => done ⟨[OP_RETURN]⟩
    else (readBytes (nSize - nSpecialScripts)).andThen fun bytes => done ⟨bytes⟩

/-- The same with any script in the place of the empty one, and in that of a script over
the limit. -/
def readScriptOr (keys : PubKeys) (before long : CScript) : Reader CScript :=
  (readVarInt 32).andThen fun nSize =>
    if nSize < nSpecialScripts then
      (readBytes (getSpecialScriptSize nSize)).andThen fun vch =>
        done ((decompressScript keys nSize vch).getD before)
    else if MAX_SCRIPT_SIZE < nSize - nSpecialScripts then
      (readBytes (nSize - nSpecialScripts)).andThen fun _ => done long
    else (readBytes (nSize - nSpecialScripts)).andThen fun bytes => done ⟨bytes⟩

section

variable {before long : CScript}

theorem between_eq_some {first last middle : List UInt8} {length : ℕ}
    (h : between script first length last = some middle) :
    script = ⟨first ++ middle ++ last⟩ ∧ middle.length = length := by
  unfold between at h
  split_ifs at h with hshape
  obtain ⟨hsize, hfirst, hlast⟩ := hshape
  cases h
  have hrest : (script.bytes.drop first.length).drop length = last := by
    rw [drop_drop]
    exact hlast
  constructor
  · cases script with
    | mk bytes =>
      congr 1
      calc bytes = bytes.take first.length ++ bytes.drop first.length :=
            (take_append_drop ..).symm
        _ = first ++ ((bytes.drop first.length).take length ++ last) := by
            rw [hfirst, ← hrest, take_append_drop]
        _ = _ := (append_assoc ..).symm
  · rw [length_take, length_drop]
    rw [CScript.size] at hsize
    omega

theorem parity_eq (pubkey : List UInt8) : parity pubkey = 0 ∨ parity pubkey = 1 := by
  have hlow : (parity pubkey).toNat = (pubkey.getD 64 0).toNat % 2 := by
    rw [parity, UInt8.toNat_and]
    exact Nat.and_one_is_mod _
  rcases Nat.mod_two_eq_zero_or_one (pubkey.getD 64 0).toNat with h | h
  · left
    exact UInt8.toNat_inj.mp (hlow.trans h)
  · right
    exact UInt8.toNat_inj.mp (hlow.trans h)

theorem cons_of_take_one {bytes : List UInt8} {byte : UInt8} (h : bytes.take 1 = [byte]) :
    bytes = byte :: bytes.drop 1 := by
  rw [← singleton_append, ← h, take_append_drop]

/-- A number below six, the bytes it announces, and the script made from them. -/
private theorem reads_special {first : UInt8} {input : List UInt8}
    (hfirst : first.toNat < nSpecialScripts)
    (hlength : input.length = getSpecialScriptSize first.toNat)
    (hscript : decompressScript keys first.toNat input = some script) :
    Reads (readScriptOr keys before long) (first :: input) script := by
  rw [nSpecialScripts] at hfirst
  have hnumber : Reads (readVarInt 32) [first] first.toNat := by
    have hreads := @reads_readVarInt 32 first.toNat (by omega) (by omega)
    have hwrite : writeVarInt 32 first.toNat = [first] := by
      rw [writeVarInt, writeDigits, if_pos (by omega), add_zero, Nat.mod_eq_of_lt (by omega),
        UInt8.ofNat_toNat]
    rwa [hwrite] at hreads
  refine hnumber.andThen (?_ : Reads _ input script)
  rw [if_pos (by rw [nSpecialScripts]; exact hfirst), ← hlength]
  have hbytes := (reads_readBytes input).map
    fun vch => (decompressScript keys first.toNat vch).getD before
  rwa [hscript, Option.getD_some] at hbytes

/-- A public key pattern: half a key comes back as the whole. -/
private theorem reads_pubKey (hkeys : keys.Restores) {pubkey : List UInt8}
    (h : isToPubKey keys script = some pubkey) : Reads (readScriptOr keys before long)
      (if pubkey.take 1 = [4] then (4 ||| parity pubkey) :: (pubkey.drop 1).take 32 else pubkey)
      script := by
  unfold isToPubKey at h
  split at h
  next key hbetween =>
    obtain ⟨hscript, hlength⟩ := between_eq_some hbetween
    split_ifs at h with hheader
    obtain rfl := Option.some.inj h
    have hrest : (key.drop 1).length = 32 := by
      rw [length_drop, hlength]
    rcases hheader with hheader | hheader
    · rw [if_neg (by rw [hheader]; decide), cons_of_take_one hheader]
      refine reads_special (by decide) hrest ?_
      rw [hscript, cons_of_take_one hheader]
      rfl
    · rw [if_neg (by rw [hheader]; decide), cons_of_take_one hheader]
      refine reads_special (by decide) hrest ?_
      rw [hscript, cons_of_take_one hheader]
      rfl
  next =>
    split at h
    next key hbetween =>
      obtain ⟨hscript, hlength⟩ := between_eq_some hbetween
      split_ifs at h with hheader
      obtain rfl := Option.some.inj h
      have hwhole := hkeys key hlength hheader.1 hheader.2
      have hhalf : ((key.drop 1).take 32).length = 32 := by
        rw [length_take, length_drop, hlength]
        rfl
      have hdecompress (nSize : ℕ) (hsize : nSize = 4 ∨ nSize = 5)
          (h : keys.decompress (UInt8.ofNat (nSize - 2) :: (key.drop 1).take 32) = some key) :
          decompressScript keys nSize ((key.drop 1).take 32) = some script := by
        rw [decompressScript, if_neg (by omega), if_neg (by omega), if_neg (by omega),
          if_pos hsize, h, hscript]
        rfl
      rw [if_pos hheader.1]
      rcases parity_eq key with hparity | hparity
      · rw [hparity] at hwhole ⊢
        refine reads_special (by decide) hhalf ?_
        exact hdecompress 4 (by omega) hwhole
      · rw [hparity] at hwhole ⊢
        refine reads_special (by decide) hhalf ?_
        exact hdecompress 5 (by omega) hwhole
    next => simp at h

/-- Every script within the limit is read back. -/
theorem reads_readScriptOr (hkeys : keys.Restores) (hsize : script.size ≤ MAX_SCRIPT_SIZE) :
    Reads (readScriptOr keys before long) (serCompressedScript keys script) script := by
  unfold serCompressedScript compressScript
  cases hkeyID : isToKeyID script with
  | some keyID =>
    obtain ⟨hscript, hlength⟩ := between_eq_some hkeyID
    refine reads_special (by decide) hlength ?_
    rw [hscript]
    rfl
  | none =>
    cases hscriptID : isToScriptID script with
    | some scriptID =>
      obtain ⟨hscript, hlength⟩ := between_eq_some hscriptID
      refine reads_special (by decide) hlength ?_
      rw [hscript]
      rfl
    | none =>
      cases hpubKey : isToPubKey keys script with
      | some pubkey =>
        have hreads := @reads_pubKey script keys before long hkeys pubkey hpubKey
        dsimp only
        split_ifs at hreads ⊢
        · exact hreads
        · exact hreads
      | none =>
        rw [MAX_SCRIPT_SIZE] at hsize
        have hnumber := @reads_readVarInt 32 (script.size + nSpecialScripts) (by omega)
          (by rw [nSpecialScripts]; omega)
        refine hnumber.andThen ?_
        rw [if_neg (by omega), if_neg (by rw [MAX_SCRIPT_SIZE]; omega), Nat.add_sub_cancel]
        exact (reads_readBytes script.bytes).map CScript.mk

end

/-! ## Outputs -/

/-- `TxOutCompression`, writing. -/
def serCompressedOut (keys : PubKeys) (out : CTxOut) : List UInt8 :=
  writeVarInt 64 (compressAmount out.nValue.toUInt64.toNat) ++
    serCompressedScript keys out.scriptPubKey

/-- `TxOutCompression`, reading. -/
def readCompressedOut (keys : PubKeys) : Reader CTxOut :=
  (readVarInt 64).andThen fun v => (readCompressedScript keys).andThen fun scriptPubKey =>
    done ⟨(UInt64.ofNat (decompressAmount v)).toInt64, scriptPubKey⟩

/-- An amount in the money range is far below 64 bits. -/
theorem toNat_lt_of_moneyRange {out : CTxOut} (hvalue : moneyRange out.value = true) :
    out.nValue.toUInt64.toNat < 2 ^ 60 := by
  rw [moneyRange_iff, CTxOut.value, MAX_MONEY, COIN] at hvalue
  have hbits : out.nValue.toInt = out.nValue.toBitVec.toInt := rfl
  have hnat : out.nValue.toUInt64.toNat = out.nValue.toBitVec.toNat := rfl
  rw [hbits, BitVec.toInt_eq_toNat_cond] at hvalue
  rw [hnat]
  split_ifs at hvalue <;> omega

/-- What is read from a compressed amount. -/
theorem decompress_value {out : CTxOut} (hvalue : moneyRange out.value = true) :
    (UInt64.ofNat (decompressAmount (compressAmount out.nValue.toUInt64.toNat))).toInt64 =
      out.nValue := by
  rw [decompressAmount_compressAmount (toNat_lt_of_moneyRange hvalue), UInt64.ofNat_toNat]
  rfl

theorem reads_readCompressedOut (hkeys : keys.Restores) {out : CTxOut}
    (hvalue : moneyRange out.value = true) (hsize : out.scriptPubKey.size ≤ MAX_SCRIPT_SIZE) :
    Reads (readCompressedOut keys) (serCompressedOut keys out) out := by
  have hnumber := @reads_readVarInt 64 _ (by omega) (compressAmount_lt out.nValue.toUInt64.toNat)
  have hscript : Reads (readCompressedScript keys) (serCompressedScript keys out.scriptPubKey)
      out.scriptPubKey := reads_readScriptOr hkeys hsize
  have hlast := hscript.map fun scriptPubKey => CTxOut.mk
    (UInt64.ofNat (decompressAmount (compressAmount out.nValue.toUInt64.toNat))).toInt64
    scriptPubKey
  refine hnumber.andThen (?_ : Reads _ _ out)
  rw [decompress_value hvalue] at hlast ⊢
  exact hlast

end Patchcoin
