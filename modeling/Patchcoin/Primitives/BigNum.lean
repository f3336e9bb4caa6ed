import Patchcoin.Lib.Reader
import Patchcoin.Script.Standard

/-!
# Conversions of big numbers

`CBigNum` takes integers through the signed format of `BN_mpi2bn`: the number of bytes in
four bytes, then the absolute value, most significant byte first, with the sign in the
highest bit.  A number whose own highest bit is set gets one more byte in front.

The conversions write this format into buffers on the stack.  The 64-bit ones write from
the end of 16 bytes downwards, the 256-bit one from the start of 38 bytes upwards.  Here a
buffer is the list of the bytes written so far, and a write that would leave the buffer
fails; so a conversion that succeeds has stayed inside.
-/

namespace Patchcoin

open List

namespace CBigNum

/-! ## The signed format -/

/-- A number from its bytes, most significant first. -/
def ofBe (bytes : List UInt8) : ℕ := Reader.ofLe bytes.reverse

/-- The sign and the absolute value. -/
def ofSigned : List UInt8 → ℤ
  | [] => 0
  | byte :: rest =>
    if 128 ≤ byte.toNat then -(ofBe (UInt8.ofNat (byte.toNat - 128) :: rest) : ℤ)
    else ofBe (byte :: rest)

/-- `BN_mpi2bn`. -/
def mpi2bn (bytes : List UInt8) : Option ℤ :=
  if 4 ≤ bytes.length ∧ ofBe (bytes.take 4) = bytes.length - 4 then some (ofSigned (bytes.drop 4))
  else none

/-- `BN_bn2mpi`. -/
def bn2mpi (self : ℤ) : List UInt8 :=
  let digits := (Nat.digits 256 self.natAbs).reverse.map UInt8.ofNat
  let padded := if 128 ≤ (digits.headD 0).toNat then 0 :: digits else digits
  let body := if self < 0 then padded.modifyHead (128 ||| ·) else padded
  (PrefixCode.leBytes 4 body.length).reverse ++ body

/-! ## 64 bits -/

/-- `*--p = byte`, with the bytes from `p` up to the last one of 16. -/
def pushByte (byte : UInt8) (p : List UInt8) : Option (List UInt8) :=
  if p.length < 15 then some (byte :: p) else none

/-- The loop over the bytes of a number. -/
def pushBytes (m : ℕ) (p : List UInt8) : Option (List UInt8) :=
  if m = 0 then some p else (pushByte (UInt8.ofNat m) p).bind (pushBytes (m / 256))
termination_by m

/-- The four bytes with the length, and `BN_mpi2bn`. -/
def pushSize (p : List UInt8) : Option ℤ :=
  (pushByte (UInt8.ofNat p.length) p).bind fun p => (pushByte 0 p).bind fun p =>
    (pushByte 0 p).bind fun p => (pushByte 0 p).bind mpi2bn

/-- The bytes of a number with its sign.  The byte at the end of the buffer is zero. -/
def setSigned (neg : UInt8) (m : ℕ) : Option ℤ :=
  (pushBytes m []).bind fun p =>
    (if 128 ≤ (p.headD 0).toNat then pushByte neg p else some p).bind fun p =>
      pushSize (p.modifyHead (· ||| neg))

/-- `-n` in `int64_t`.  The opposite of the least number is out of range there, and the
signed overflow leaves the program without a meaning. -/
def negate (n : Int64) : Option Int64 := if n = Int64.minValue then none else some (-n)

def setint64 (n : Int64) : Option ℤ :=
  if n < 0 then (negate n).bind fun m => setSigned 0x80 m.toUInt64.toNat
  else setSigned 0 n.toUInt64.toNat

/-- `setuint64`, which has no sign to set. -/
def setuint64 (n : UInt64) : Option ℤ := setSigned 0 n.toNat

/-! ## 256 bits -/

/-- `*p++ = byte`, with the bytes after the first four of 38. -/
def appendByte (byte : UInt8) (p : List UInt8) : Option (List UInt8) :=
  if 4 + p.length < 38 then some (p ++ [byte]) else none

/-- The loop over the bytes of the number from the highest on. -/
def appendBytes : List UInt8 → Bool → List UInt8 → Option (List UInt8)
  | [], _, p => some p
  | c :: psrc, fLeadingZeroes, p =>
    if fLeadingZeroes && c == 0 then appendBytes psrc true p
    else
      (if fLeadingZeroes && c &&& 0x80 != 0 then appendByte 0 p else some p).bind fun p =>
        (appendByte c p).bind (appendBytes psrc false)

def setuint256 (n : Uint256) : Option ℤ :=
  (appendBytes n.toBytes.reverse true []).bind fun p =>
    mpi2bn ((PrefixCode.leBytes 4 p.length).reverse ++ p)

def getuint256 (self : ℤ) : Uint256 :=
  let vch := bn2mpi self
  if vch.length < 4 then 0
  else BitVec.ofNat 256 (Reader.ofLe (((vch.drop 4).modifyHead (· &&& 0x7f)).reverse.take 32))

/-! ## The format is read back -/

variable {bytes p : List UInt8} {byte : UInt8}

theorem ofBe_cons : ofBe (byte :: bytes) = byte.toNat * 256 ^ bytes.length + ofBe bytes := by
  rw [ofBe, reverse_cons, Reader.ofLe_append, length_reverse, Reader.ofLe, Reader.ofLe,
    ofBe]
  ring

theorem ofBe_zero_cons : ofBe (0 :: bytes) = ofBe bytes := by
  rw [ofBe_cons, UInt8.toNat_zero, zero_mul, zero_add]

/-- Numbers without the highest bit are positive. -/
theorem ofSigned_cons_of_lt (h : byte.toNat < 128) :
    ofSigned (byte :: bytes) = ofBe (byte :: bytes) := if_neg (by omega)

theorem mpi2bn_append (h : bytes.length < 2 ^ 32) :
    mpi2bn ((PrefixCode.leBytes 4 bytes.length).reverse ++ bytes) = some (ofSigned bytes) := by
  have hlength : ((PrefixCode.leBytes 4 bytes.length).reverse).length = 4 := by simp
  have hsize : ofBe (PrefixCode.leBytes 4 bytes.length).reverse = bytes.length := by
    rw [ofBe, reverse_reverse, Reader.ofLe_leBytes (by omega)]
  rw [mpi2bn, take_left' hlength, drop_left' hlength, hsize, length_append, hlength,
    if_pos (by omega)]

theorem pushByte_eq (h : p.length < 15) : pushByte byte p = some (byte :: p) := if_pos h

/-- The loop writes the number in front of what is there, in at most so many bytes. -/
theorem pushBytes_spec {k m : ℕ} (hm : m < 256 ^ k) (hroom : p.length + k ≤ 15) :
    ∃ q, pushBytes m p = some q ∧ q.length ≤ p.length + k ∧
      ofBe q = m * 256 ^ p.length + ofBe p := by
  induction k generalizing m p with
  | zero =>
    have hzero : m = 0 := by omega
    rw [pushBytes, if_pos hzero, hzero]
    exact ⟨p, rfl, by omega, by omega⟩
  | succ k ih =>
    rw [pushBytes]
    split_ifs with hzero
    · rw [hzero]
      exact ⟨p, rfl, by omega, by omega⟩
    · rw [pow_succ] at hm
      have hbyte : (UInt8.ofNat m).toNat = m % 256 := UInt8.toNat_ofNat'
      obtain ⟨q, hq, hlength, hvalue⟩ := @ih (UInt8.ofNat m :: p) (m / 256) (by omega)
        (by rw [length_cons]; omega)
      rw [length_cons] at hlength hvalue
      refine ⟨q, by rw [pushByte_eq (by omega)]; exact hq, by omega, ?_⟩
      calc ofBe q = m / 256 * 256 ^ (p.length + 1) + (m % 256 * 256 ^ p.length + ofBe p) := by
            rw [hvalue, ofBe_cons, hbyte]
        _ = (m / 256 * 256 + m % 256) * 256 ^ p.length + ofBe p := by ring
        _ = m * 256 ^ p.length + ofBe p := by rw [Nat.div_add_mod']

/-- The byte with the sign. -/
theorem ofSigned_sign {neg : UInt8} (hneg : neg = 0 ∨ neg = 0x80) (hempty : p = [] → neg = 0) :
    ofSigned ((if 128 ≤ (p.headD 0).toNat then neg :: p else p).modifyHead (· ||| neg)) =
      if neg = 0 then (ofBe p : ℤ) else -ofBe p := by
  cases p with
  | nil =>
    rw [hempty rfl]
    rfl
  | cons byte rest =>
    rw [headD_cons]
    rcases hneg with rfl | rfl
    · rw [if_pos rfl]
      split_ifs with hhigh
      · exact (ofSigned_cons_of_lt (by decide)).trans (congrArg _ ofBe_zero_cons)
      · rw [modifyHead_cons, UInt8.or_zero, ofSigned_cons_of_lt (by omega)]
    · rw [if_neg (show ¬(0x80 : UInt8) = 0 by decide)]
      split_ifs with hhigh
      · exact congrArg (fun n : ℕ => -(n : ℤ)) ofBe_zero_cons
      · have hor : (byte ||| 0x80).toNat = byte.toNat + 128 := by
          have hdisjoint := @Nat.two_pow_add_eq_or_of_lt 7 byte.toNat (by omega) 1
          rw [UInt8.toNat_or, Nat.or_comm]
          exact hdisjoint.symm.trans (by omega)
        rw [modifyHead_cons, ofSigned, if_pos (by omega), hor, Nat.add_sub_cancel,
          UInt8.ofNat_toNat]

theorem pushSize_eq (h : p.length ≤ 9) : pushSize p = some (ofSigned p) := by
  have hheader : [0, 0, 0, UInt8.ofNat p.length] = (PrefixCode.leBytes 4 p.length).reverse := by
    simp only [PrefixCode.leBytes, Nat.div_eq_of_lt (show p.length < 256 by omega), Nat.zero_div]
    rfl
  have hread := @mpi2bn_append p (by omega)
  rw [← hheader] at hread
  rw [pushSize, pushByte_eq (by omega), Option.bind_some, pushByte_eq (by simp; omega),
    Option.bind_some, pushByte_eq (by simp; omega), Option.bind_some, pushByte_eq (by simp; omega)]
  exact hread

/-- A number of 64 bits with its sign goes through the buffer. -/
theorem setSigned_eq {neg : UInt8} {m : ℕ} (hneg : neg = 0 ∨ neg = 0x80) (hm : m < 2 ^ 64)
    (hzero : m = 0 → neg = 0) : setSigned neg m = some (if neg = 0 then (m : ℤ) else -m) := by
  obtain ⟨q, hq, hlength, hvalue⟩ := @pushBytes_spec [] 8 m (by omega) (by decide)
  rw [length_nil, zero_add] at hlength
  rw [length_nil, pow_zero, mul_one] at hvalue
  have hsign := @ofSigned_sign q neg hneg (by
    rintro rfl
    exact hzero hvalue.symm)
  rw [show ofBe q = m from hvalue] at hsign
  have hpush : (if 128 ≤ (q.headD 0).toNat then pushByte neg q else some q) =
      some (if 128 ≤ (q.headD 0).toNat then neg :: q else q) := by
    rw [pushByte_eq (by omega)]
    split <;> rfl
  rw [setSigned, hq, Option.bind_some, hpush, Option.bind_some, pushSize_eq, hsign]
  rw [length_modifyHead]
  split
  · rw [length_cons]
    omega
  · omega

/-- After the first byte that is not zero every byte is written. -/
theorem appendBytes_false (h : 4 + p.length + bytes.length ≤ 38) :
    appendBytes bytes false p = some (p ++ bytes) := by
  induction bytes generalizing p with
  | nil => rw [appendBytes, append_nil]
  | cons c psrc ih =>
    rw [length_cons] at h
    rw [appendBytes, Bool.false_and, if_neg Bool.false_ne_true, Bool.false_and,
      if_neg Bool.false_ne_true, Option.bind_some, appendByte, if_pos (by omega), Option.bind_some,
      ih (by rw [length_append, length_singleton]; omega), append_assoc]
    rfl

theorem appendBytes_true (h : bytes.length ≤ 33) :
    ∃ q, appendBytes bytes true [] = some q ∧ q.length ≤ bytes.length + 1 ∧
      ofSigned q = ofBe bytes := by
  have hbit : ∀ c : UInt8, (c &&& 0x80 != 0) = decide (128 ≤ c.toNat) := fun c =>
    (by decide +kernel : ∀ x : Fin 256, (UInt8.ofFin x &&& 0x80 != 0) =
      decide (128 ≤ (UInt8.ofFin x).toNat)) c.toFin
  induction bytes with
  | nil => exact ⟨[], rfl, by simp, rfl⟩
  | cons c psrc ih =>
    rw [length_cons] at h ⊢
    rw [appendBytes, Bool.true_and, Bool.true_and, hbit]
    by_cases hc : c = 0
    · obtain ⟨q, hq, hlength, hvalue⟩ := ih (by omega)
      subst hc
      rw [if_pos (by decide), ofBe_zero_cons]
      exact ⟨q, hq, by omega, hvalue⟩
    · rw [if_neg (by simpa using hc)]
      by_cases hhigh : 128 ≤ c.toNat
      · refine ⟨0 :: c :: psrc, ?_, by simp, ?_⟩
        · rw [decide_eq_true hhigh, if_pos rfl]
          exact appendBytes_false (p := [0, c]) (by simp; omega)
        · rw [ofSigned_cons_of_lt (by decide), ofBe_zero_cons]
      · refine ⟨c :: psrc, ?_, by simp, ofSigned_cons_of_lt (by omega)⟩
        rw [decide_eq_false hhigh, if_neg Bool.false_ne_true]
        exact appendBytes_false (p := [c]) (by simp; omega)

theorem setuint256_eq (n : Uint256) : setuint256 n = some (n.toNat : ℤ) := by
  have hlength : n.toBytes.reverse.length = 32 := by
    rw [length_reverse]
    exact PrefixCode.length_leBytes 32 _
  obtain ⟨q, hq, hsmall, hvalue⟩ := @appendBytes_true n.toBytes.reverse (by omega)
  rw [setuint256, hq, Option.bind_some, mpi2bn_append (by omega), hvalue, ofBe, reverse_reverse,
    Uint256.toBytes, Reader.ofLe_leBytes n.isLt]

theorem ofLe_digits (n : ℕ) : Reader.ofLe ((Nat.digits 256 n).map UInt8.ofNat) = n := by
  induction n using Nat.strong_induction_on with
  | h n ih =>
    rcases Nat.eq_zero_or_pos n with rfl | hpos
    · rfl
    · have hbyte : (UInt8.ofNat (n % 256)).toNat = n % 256 :=
        UInt8.toNat_ofNat'.trans (Nat.mod_mod ..)
      rw [Nat.digits_def' (by omega) hpos, map_cons, Reader.ofLe, ih _ (by omega), hbyte]
      omega

/-- The bytes of a number that is not negative are read in full. -/
theorem getuint256_eq (n : Uint256) : getuint256 n.toNat = n := by
  have hdigits : ((Nat.digits 256 n.toNat).map UInt8.ofNat).length ≤ 32 := by
    rw [length_map, Nat.digits_length_le_iff (by omega)]
    exact n.isLt
  have hpadded (digits : List UInt8) (h : (digits.headD 0).toNat < 128) :
      digits.modifyHead (· &&& 0x7f) = digits := by
    cases digits with
    | nil => rfl
    | cons byte rest =>
      have hand : byte &&& 0x7f = byte := by
        rw [← UInt8.toNat_inj, UInt8.toNat_and]
        exact (Nat.and_two_pow_sub_one_eq_mod _ 7).trans (Nat.mod_eq_of_lt h)
      rw [modifyHead_cons, hand]
  unfold getuint256 bn2mpi
  dsimp only
  rw [Int.natAbs_natCast, if_neg (show ¬((n.toNat : ℤ) < 0) by omega), map_reverse]
  generalize hD : (Nat.digits 256 n.toNat).map UInt8.ofNat = digits at hdigits
  have hvalue : Reader.ofLe digits = n.toNat := hD ▸ ofLe_digits n.toNat
  rw [if_neg (by simp), drop_left' (by simp), hpadded]
  · split_ifs
    · have hlast : Reader.ofLe ([0].take (32 - digits.length)) = 0 := by
        cases 32 - digits.length with
        | zero => rfl
        | succ k => rw [take_succ_cons, take_nil]; rfl
      rw [reverse_cons, reverse_reverse, take_append, take_of_length_le hdigits,
        Reader.ofLe_append, hlast, mul_zero, add_zero, hvalue, BitVec.ofNat_toNat,
        BitVec.setWidth_eq]
    · rw [reverse_reverse, take_of_length_le hdigits, hvalue, BitVec.ofNat_toNat,
        BitVec.setWidth_eq]
  · split_ifs with hhigh
    · exact (by decide : (0 : UInt8).toNat < 128)
    · omega

theorem setint64_minValue : setint64 Int64.minValue = none := by
  rw [setint64, if_pos (by decide), negate, if_pos rfl, Option.bind_none]

theorem setint64_eq {n : Int64} (hmin : n ≠ Int64.minValue) : setint64 n = some n.toInt := by
  have hint : n.toInt = n.toBitVec.toInt := rfl
  have hnat : n.toUInt64.toNat = n.toBitVec.toNat := rfl
  have hopposite : (-n).toUInt64.toNat = (2 ^ 64 - n.toBitVec.toNat) % 2 ^ 64 :=
    BitVec.toNat_neg n.toBitVec
  have hrange := n.toBitVec.isLt
  rw [BitVec.toInt_eq_toNat_cond] at hint
  rw [setint64, negate, if_neg hmin, Option.bind_some]
  split_ifs with hneg
  · rw [Int64.lt_iff_toInt_lt, hint] at hneg
    change _ < (0 : ℤ) at hneg
    rw [setSigned_eq (.inr rfl) (-n).toUInt64.toNat_lt, if_neg (by decide), hopposite, hint]
    · split_ifs at hneg ⊢ with hsmall
      · omega
      · congr 1
        omega
    · rw [hopposite]
      split_ifs at hneg <;> omega
  · rw [Int64.lt_iff_toInt_lt, hint] at hneg
    change ¬ _ < (0 : ℤ) at hneg
    rw [setSigned_eq (.inl rfl) n.toUInt64.toNat_lt (fun _ => rfl), if_pos rfl, hnat, hint]
    split_ifs at hneg ⊢
    · rfl
    · omega

/-- Every conversion stays inside its buffer and gives the number itself, and the hash is read
back; the least number of 64 bits alone has no conversion, since its negation overflows. -/
theorem conversions_exact_iff (n : Int64) (m : UInt64) (hash : Uint256) :
    (setint64 n = some n.toInt ↔ n ≠ Int64.minValue) ∧ setuint64 m = some (m.toNat : ℤ) ∧
      setuint256 hash = some (hash.toNat : ℤ) ∧
      (setuint256 hash).map getuint256 = some hash := by
  refine ⟨⟨?_, setint64_eq⟩, ?_, setuint256_eq hash, ?_⟩
  · rintro hexact rfl
    rw [setint64_minValue] at hexact
    cases hexact
  · rw [setuint64, setSigned_eq (.inl rfl) m.toNat_lt (fun _ => rfl), if_pos rfl]
  · rw [setuint256_eq, Option.map_some, getuint256_eq]

/-- The least number is negated before it is converted to an unsigned one. -/
theorem least_number_not_converted :
    Int64.minValue.toInt = -2 ^ 63 ∧ ¬setint64 Int64.minValue = some (-2 ^ 63) := by
  refine ⟨by decide, ?_⟩
  rw [setint64_minValue]
  exact (Option.some_ne_none _).symm

end CBigNum

end Patchcoin
