import Patchcoin.Lib.Reader
import Patchcoin.Script.Standard

/-!
# Scripts of destinations

`GetScriptForDestination` writes one script for a destination, and `ExtractDestination`
reads the destination off that script again, if it was read off a script in the first place.
-/

namespace Patchcoin

open CScript

variable {hash160 : List UInt8 → Uint160}
variable {script : CScript} {dest : CTxDestination} {bytes program : List UInt8} {version : ℕ}

theorem ofLeBytes_leBytes {width n : ℕ} (hn : n < 256 ^ width) :
    ofLeBytes (PrefixCode.leBytes width n) = n := by
  have hsame (bytes : List UInt8) : ofLeBytes bytes = Reader.ofLe bytes := by
    induction bytes with
    | nil => rfl
    | cons byte rest ih => rw [ofLeBytes, Reader.ofLe, ih]
  rw [hsame, Reader.ofLe_leBytes hn]

theorem ofNat_ofLeBytes {width bytes : ℕ} (hbytes : 256 ^ bytes = 2 ^ width)
    (hash : BitVec width) :
    BitVec.ofNat width (ofLeBytes (PrefixCode.leBytes bytes hash.toNat)) = hash := by
  rw [ofLeBytes_leBytes (hbytes ▸ hash.isLt), BitVec.ofNat_toNat, BitVec.setWidth_eq]

theorem uint160_toBytes (hash : Uint160) : uint160 hash.toBytes = hash :=
  ofNat_ofLeBytes (by norm_num) hash

theorem uint256_toBytes (hash : Uint256) : uint256 hash.toBytes = hash :=
  ofNat_ofLeBytes (by norm_num) hash

/-! ## Templates -/

theorem isPayToScriptHash_of_size (h : script.size ≠ 23) : script.isPayToScriptHash = false := by
  unfold isPayToScriptHash
  rw [beq_false_of_ne h, Bool.false_and, Bool.false_and, Bool.false_and]

theorem matchPayToPubkey_of_size (hlong : script.size ≠ 67) (hshort : script.size ≠ 35) :
    matchPayToPubkey script = none := by
  have hsized (length : ℕ) (hsize : script.size ≠ length + 2) :
      matchPayToPubkeySized script length = none := if_neg fun hmatch => hsize hmatch.1
  unfold matchPayToPubkey
  rw [hsized CPubKey.SIZE hlong, hsized CPubKey.COMPRESSED_SIZE hshort]

theorem solver_keyHash (h : bytes.length = 20) :
    solver ⟨OP_DUP :: OP_HASH160 :: 20 :: (bytes ++ [OP_EQUALVERIFY, OP_CHECKSIG])⟩ =
      (.PUBKEYHASH, [bytes]) := by
  generalize hscript : mk (OP_DUP :: OP_HASH160 :: 20 :: (bytes ++
    [OP_EQUALVERIFY, OP_CHECKSIG])) = script
  have hsize : script.size = 25 := by simp [← hscript, size, h]
  have hfirst : script.bytes.getD 0 0 = OP_DUP := by rw [← hscript]; rfl
  have hwitness : script.isWitnessProgram = none := by
    unfold isWitnessProgram
    rw [hsize, hfirst]
    rfl
  have hmatch : matchPayToPubkeyHash script = some bytes := by
    have hbytes : script.bytes.getD 1 0 = OP_HASH160 ∧ script.bytes.getD 2 0 = 20 ∧
        script.bytes.getD 23 0 = OP_EQUALVERIFY ∧ script.bytes.getD 24 0 = OP_CHECKSIG := by
      rw [← hscript]
      simp [h]
    unfold matchPayToPubkeyHash
    rw [if_pos ⟨hsize, hfirst, hbytes⟩, ← hscript]
    simp [h]
  unfold solver
  rw [isPayToScriptHash_of_size (by omega), hwitness, hfirst,
    matchPayToPubkey_of_size (by omega) (by omega), hmatch]
  simp only [Bool.false_eq_true, if_false]
  rw [if_neg fun hreturn => absurd hreturn.2.1 (by decide)]

theorem solver_scriptHash (h : bytes.length = 20) :
    solver ⟨OP_HASH160 :: 20 :: (bytes ++ [OP_EQUAL])⟩ = (.SCRIPTHASH, [bytes]) := by
  have hscriptHash : (mk (OP_HASH160 :: 20 :: (bytes ++ [OP_EQUAL]))).isPayToScriptHash =
      true := by
    simp [isPayToScriptHash, size, h]
  unfold solver
  rw [hscriptHash, if_pos rfl]
  simp [h]

/-- A script of a version and a program. -/
theorem isWitnessProgram_mk (hversion : version ≤ 16) (hlow : 2 ≤ program.length)
    (hhigh : program.length ≤ 40) :
    (mk (encodeOP_N version :: UInt8.ofNat program.length ::
      program)).isWitnessProgram = some (version, program) ∧
    (mk (encodeOP_N version :: UInt8.ofNat program.length ::
      program)).isPayToScriptHash = false := by
  have hfirst : ∀ version : Fin 17, ¬ (encodeOP_N version ≠ OP_0 ∧
      (encodeOP_N version < OP_1 ∨ OP_16 < encodeOP_N version)) ∧
      decodeOP_N (encodeOP_N version) = version ∧
      encodeOP_N version ≠ OP_HASH160 := by decide
  obtain ⟨hrange, hdecode, hother⟩ := hfirst ⟨version, by omega⟩
  have hlength : (UInt8.ofNat program.length).toNat = program.length := by
    rw [UInt8.toNat_ofNat']
    omega
  constructor
  · unfold isWitnessProgram
    rw [if_neg (by simp [size]; omega)]
    have hrange' : ¬ ((mk (encodeOP_N version :: UInt8.ofNat program.length ::
        program)).bytes.getD 0 0 ≠ OP_0 ∧ ((mk (encodeOP_N version ::
        UInt8.ofNat program.length :: program)).bytes.getD 0 0 < OP_1 ∨
        OP_16 < (mk (encodeOP_N version :: UInt8.ofNat program.length ::
        program)).bytes.getD 0 0)) := hrange
    rw [if_neg hrange', if_pos]
    · exact congrArg (fun version => some (version, program)) hdecode
    · simp [size, hlength]
  · unfold isPayToScriptHash
    simp [hother]

/-! ## Destinations -/

theorem pushData_of_lt {data : List UInt8} (h : data.length < 76) :
    script.pushData data = ⟨script.bytes ++ UInt8.ofNat data.length :: data⟩ := by
  have hshort : data.length < OP_PUSHDATA1.toNat := h
  unfold pushData
  simp [hshort]

/-- The destination of a version and a program. -/
def witnessDestination (version : ℕ) (program : List UInt8) : Option CTxDestination :=
  if version = 0 ∧ program.length = 20 then some (.WitnessV0KeyHash (uint160 program))
  else if version = 0 ∧ program.length = 32 then some (.WitnessV0ScriptHash (uint256 program))
  else if version = 1 ∧ program.length = 32 then some (.WitnessV1Taproot (uint256 program))
  else if version ≠ 0 then some (.WitnessUnknown version program)
  else none

theorem extractDestination_of_witness (hnot : script.isPayToScriptHash = false)
    (hversion : version ≤ 16) (hprogram : script.isWitnessProgram = some (version, program)) :
    extractDestination hash160 script = witnessDestination version program := by
  have hbyte : (UInt8.ofNat version).toNat = version := by
    rw [UInt8.toNat_ofNat']
    omega
  unfold extractDestination solver witnessDestination
  rw [hnot, hprogram]
  simp only [Bool.false_eq_true, if_false]
  split_ifs
  · rfl
  · rfl
  · rfl
  · simp [hbyte]
  · rfl

/-- The script of a version and a program. -/
theorem extractDestination_pushData {version : ℕ} (hversion : version ≤ 16)
    {program : List UInt8} (hlow : 2 ≤ program.length) (hhigh : program.length ≤ 40) :
    extractDestination hash160
        (((mk []).pushOp (encodeOP_N version)).pushData program) =
      witnessDestination version program := by
  obtain ⟨hprogram, hnot⟩ := isWitnessProgram_mk hversion hlow hhigh
  rw [pushData_of_lt (by omega)]
  exact extractDestination_of_witness hnot hversion hprogram

theorem isWitnessProgram_bounds (h : script.isWitnessProgram = some (version, program)) :
    version ≤ 16 ∧ 2 ≤ program.length ∧ program.length ≤ 40 := by
  have hdecode : ∀ first : UInt8, ¬ (first ≠ OP_0 ∧ (first < OP_1 ∨ OP_16 < first)) →
      decodeOP_N first ≤ 16 := by
    intro first hrange
    unfold decodeOP_N
    split_ifs with hzero
    · omega
    · have hle : first ≤ OP_16 := by
        by_contra hgt
        exact hrange ⟨hzero, .inr (UInt8.not_le.mp hgt)⟩
      have hnat : first.toNat ≤ 96 := hle
      have hone : OP_1.toNat = 81 := rfl
      omega
  unfold isWitnessProgram at h
  dsimp only at h
  split_ifs at h with hsize hrange hlength
  obtain ⟨rfl, rfl⟩ := Prod.mk.inj (Option.some.inj h)
  refine ⟨hdecode _ hrange, ?_⟩
  have hsize' : script.size = script.bytes.length := rfl
  rw [List.length_drop]
  omega

/-- What `extractDestination` finds behind a script. -/
theorem extractDestination_cases (h : extractDestination hash160 script = some dest) :
    (∃ hash, dest = .PKHash hash) ∨ (∃ hash, dest = .ScriptHash hash) ∨
      ∃ version program, version ≤ 16 ∧ 2 ≤ program.length ∧ program.length ≤ 40 ∧
        witnessDestination version program = some dest := by
  cases hnot : script.isPayToScriptHash with
  | true =>
    unfold extractDestination solver at h
    rw [hnot] at h
    exact .inr (.inl ⟨_, (Option.some.inj h).symm⟩)
  | false =>
    cases hprogram : script.isWitnessProgram with
    | some found =>
      obtain ⟨version, program⟩ := found
      obtain ⟨hversion, hbounds⟩ := isWitnessProgram_bounds hprogram
      rw [extractDestination_of_witness hnot hversion hprogram] at h
      exact .inr (.inr ⟨version, program, hversion, hbounds.1, hbounds.2, h⟩)
    | none =>
      left
      unfold extractDestination solver at h
      rw [hnot, hprogram] at h
      simp only [Bool.false_eq_true, if_false] at h
      split_ifs at h
      cases hkey : matchPayToPubkey script with
      | some data =>
        rw [hkey] at h
        dsimp only at h
        split_ifs at h
        exact ⟨_, (Option.some.inj h).symm⟩
      | none =>
        rw [hkey] at h
        cases hhash : matchPayToPubkeyHash script with
        | some data =>
          rw [hhash] at h
          exact ⟨_, (Option.some.inj h).symm⟩
        | none =>
          rw [hhash] at h
          cases hmulti : matchMultisig script with
          | _ =>
            rw [hmulti] at h
            cases h

/-- The script that is written for the destination of a script has that destination. -/
theorem extractDestination_getScriptForDestination
    (h : extractDestination hash160 script = some dest) :
    extractDestination hash160 (getScriptForDestination dest) = some dest := by
  rcases extractDestination_cases h with ⟨hash, rfl⟩ | ⟨hash, rfl⟩ |
    ⟨version, program, hversion, hlow, hhigh, hdest⟩
  · have hlength : hash.toBytes.length = 20 := PrefixCode.length_leBytes 20 _
    have hscript : getScriptForDestination (.PKHash hash) =
        ⟨OP_DUP :: OP_HASH160 :: 20 :: (hash.toBytes ++ [OP_EQUALVERIFY, OP_CHECKSIG])⟩ := by
      rw [getScriptForDestination, pushData_of_lt (by omega), hlength]
      simp [pushOp]
    rw [hscript]
    unfold extractDestination
    rw [solver_keyHash hlength]
    simp [uint160_toBytes]
  · have hlength : hash.toBytes.length = 20 := PrefixCode.length_leBytes 20 _
    have hscript : getScriptForDestination (.ScriptHash hash) =
        ⟨OP_HASH160 :: 20 :: (hash.toBytes ++ [OP_EQUAL])⟩ := by
      rw [getScriptForDestination, pushData_of_lt (by omega), hlength]
      simp [pushOp]
    rw [hscript]
    unfold extractDestination
    rw [solver_scriptHash hlength]
    simp [uint160_toBytes]
  · have hextract (version : ℕ) (hversion : version ≤ 1) {program : List UInt8} {length : ℕ}
        (hlength : program.length = length) (hlow : 2 ≤ length) (hhigh : length ≤ 40) :=
      @extractDestination_pushData hash160 version (by omega) program (by omega) (by omega)
    have hkeyHash (hash : Uint160) : hash.toBytes.length = 20 := PrefixCode.length_leBytes 20 _
    have hprogram (hash : Uint256) : hash.toBytes.length = 32 := PrefixCode.length_leBytes 32 _
    unfold witnessDestination at hdest
    split_ifs at hdest with hkey hscript htaproot hzero
    · cases hdest
      have hdest := hextract 0 (by omega) (hkeyHash (uint160 program)) (by omega) (by omega)
      rw [witnessDestination, if_pos ⟨rfl, hkeyHash _⟩, uint160_toBytes] at hdest
      exact hdest
    · cases hdest
      have hdest := hextract 0 (by omega) (hprogram (uint256 program)) (by omega) (by omega)
      rw [witnessDestination, if_neg (by simp [hprogram]), if_pos ⟨rfl, hprogram _⟩,
        uint256_toBytes] at hdest
      exact hdest
    · cases hdest
      have hdest := hextract 1 (by omega) (hprogram (uint256 program)) (by omega) (by omega)
      rw [witnessDestination, if_neg (by omega), if_neg (by omega), if_pos ⟨rfl, hprogram _⟩,
        uint256_toBytes] at hdest
      exact hdest
    · cases hdest
      rw [getScriptForDestination, extractDestination_pushData hversion hlow hhigh,
        witnessDestination, if_neg hkey, if_neg hscript, if_neg htaproot, if_pos hzero]

end Patchcoin
