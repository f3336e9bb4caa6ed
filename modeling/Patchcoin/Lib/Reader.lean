import Patchcoin.Lib.PrefixCode

/-!
# Reading byte streams

A reader takes a value off the front of a stream, or fails.  `Reads reader bytes
value` says that the reader recognises the encoding `bytes` of the value wherever
it stands: it returns the value and leaves exactly what follows.  The rules below
carry this from the fields of a format to the whole.

The second half gives the reader for lists whose length is written first, and
the integers of variable length in base 128, most significant digit first, where
every digit but the last is one less than its place value says, so that no
number has two encodings.
-/

/-- A reader of a byte stream: the value and the rest of the stream. -/
def Reader (α : Type*) : Type _ := List UInt8 → Option (α × List UInt8)

namespace Reader

open PrefixCode

variable {α β : Type*}
variable {bytes rest : List UInt8} {values : List α} {first reader : Reader α} {a : α}
  {enc : α → List UInt8} {p : α → Prop} {next : α → Reader β} {digit limit max n : ℕ}

/-- Read nothing. -/
def done (value : α) : Reader α := fun bytes => some (value, bytes)

/-- Give up. -/
def fail : Reader α := fun _ => none

/-- Read one thing after another. -/
def andThen (first : Reader α) (next : α → Reader β) : Reader β := fun bytes =>
  match first bytes with
  | none => none
  | some (value, rest) => next value rest

/-- What was read one after another. -/
theorem andThen_eq_some_iff {found : β × List UInt8} : first.andThen next bytes = some found ↔
      ∃ value rest, first bytes = some (value, rest) ∧ next value rest = some found := by
  unfold andThen
  cases hfirst : first bytes with
  | none => simp
  | some read =>
    obtain ⟨value, rest⟩ := read
    simp

/-- The reader takes these bytes for this value, whatever follows. -/
def Reads (reader : Reader α) (bytes : List UInt8) (value : α) : Prop :=
  ∀ rest, reader (bytes ++ rest) = some (value, rest)

theorem reads_done (value : α) : Reads (done value) [] value := fun _ => rfl

theorem Reads.andThen {bytes' : List UInt8} {b : β} (hfirst : Reads first bytes a)
    (hnext : Reads (next a) bytes' b) : Reads (first.andThen next) (bytes ++ bytes') b := by
  intro rest
  rw [Reader.andThen, List.append_assoc, hfirst]
  exact hnext rest

/-- The last field of a record. -/
theorem Reads.map (hfirst : Reads first bytes a) (f : α → β) :
    Reads (first.andThen fun value => done (f value)) bytes (f a) := by
  have hlast : Reads (done (f a)) [] (f a) := reads_done (f a)
  have hboth : Reads (first.andThen fun value => done (f value)) (bytes ++ []) (f a) :=
    hfirst.andThen hlast
  rwa [List.append_nil] at hboth

/-! ## Bytes -/

/-- The next `n` bytes. -/
def readBytes (n : ℕ) : Reader (List UInt8) := fun bytes =>
  if n ≤ bytes.length then some (bytes.take n, bytes.drop n) else none

theorem reads_readBytes (bytes : List UInt8) : Reads (readBytes bytes.length) bytes bytes := by
  intro rest
  simp [readBytes]

/-- The number that some bytes stand for, least significant first. -/
def ofLe : List UInt8 → ℕ
  | [] => 0
  | byte :: rest => byte.toNat + 256 * ofLe rest

theorem ofLe_leBytes {width : ℕ} (hn : n < 256 ^ width) : ofLe (leBytes width n) = n := by
  induction width generalizing n with
  | zero =>
    simp only [pow_zero, Nat.lt_one_iff] at hn
    rw [hn]
    rfl
  | succ width ih =>
    rw [pow_succ] at hn
    have hbyte : (UInt8.ofNat n).toNat = n % 256 := UInt8.toNat_ofNat'
    rw [leBytes, ofLe, ih (by omega), hbyte]
    omega

theorem ofLe_append (low high : List UInt8) :
    ofLe (low ++ high) = ofLe low + 256 ^ low.length * ofLe high := by
  induction low with
  | nil => simp [ofLe]
  | cons byte rest ih =>
    rw [List.cons_append, ofLe, ofLe, ih, List.length_cons]
    ring

/-- A little-endian integer. -/
def readLe (width : ℕ) : Reader ℕ := (readBytes width).andThen fun bytes => done (ofLe bytes)

theorem reads_readLe {width n : ℕ} (hn : n < 256 ^ width) :
    Reads (readLe width) (leBytes width n) n := by
  have hbytes := reads_readBytes (leBytes width n)
  rw [length_leBytes] at hbytes
  have hread := hbytes.map ofLe
  rwa [ofLe_leBytes hn] at hread

/-! ## Lists -/

/-- What follows the first byte of a length: nothing, or a wider integer that
does not fit a shorter form. -/
def readWide (first : ℕ) : Reader ℕ :=
  if first < 253 then done first
  else if first = 253 then (readLe 2).andThen fun n => if n < 253 then fail else done n
  else if first = 254 then (readLe 4).andThen fun n => if n < 0x10000 then fail else done n
  else (readLe 8).andThen fun n => if n < 0x100000000 then fail else done n

/-- A length, which has to use the shortest form and to stay within a limit. -/
def readCompactSize (limit : ℕ) : Reader ℕ :=
  (readLe 1).andThen fun first =>
    (readWide first).andThen fun n => if limit < n then fail else done n

/-- A field that has to pass a test. -/
theorem Reads.guard [DecidablePred p] (hfirst : Reads first bytes a) (ha : ¬ p a) :
    Reads (first.andThen fun value => if p value then fail else done value) bytes a := by
  intro rest
  simp only [Reader.andThen, hfirst rest, if_neg ha, done]

theorem reads_readCompactSize (hn : n < 2 ^ 64) (hlimit : n ≤ limit) :
    Reads (readCompactSize limit) (compactSize n) n := by
  -- The first byte, what it announces, and the limit.
  have hsize (marker : ℕ) {bytes : List UInt8} (hmarker : marker < 256)
      (hwide : Reads (readWide marker) bytes n) :
      Reads (readCompactSize limit) (UInt8.ofNat marker :: bytes) n := by
    have hfirst : Reads (readLe 1) [UInt8.ofNat marker] marker := @reads_readLe 1 marker (by omega)
    exact hfirst.andThen (hwide.guard (by omega))
  have hnumber (width least : ℕ) (hwidth : n < 256 ^ width) (hleast : least ≤ n) :
      Reads ((readLe width).andThen fun m => if m < least then fail else done m)
        (leBytes width n) n := (reads_readLe hwidth).guard (by omega)
  unfold compactSize
  split_ifs with h₁ h₂ h₃
  · refine hsize n (by omega) ?_
    rw [readWide, if_pos h₁]
    exact reads_done n
  · exact hsize 253 (by omega) (hnumber 2 253 (by omega) (by omega))
  · exact hsize 254 (by omega) (hnumber 4 0x10000 (by omega) (by omega))
  · exact hsize 255 (by omega) (hnumber 8 0x100000000 (by omega) (by omega))

/-- A length above the limit is refused. -/
theorem readCompactSize_eq_none (hn : n < 2 ^ 64) (hlimit : limit < n) :
    readCompactSize limit (compactSize n ++ rest) = none := by
  -- with a higher limit the same bytes are read, and the number is compared at the end
  have hread := @reads_readCompactSize n n hn le_rfl rest
  obtain ⟨marker, after, hmarker, hwide⟩ := andThen_eq_some_iff.mp hread
  obtain ⟨m, last, hm, hdone⟩ := andThen_eq_some_iff.mp hwide
  have hsame : m = n := by
    split_ifs at hdone
    · cases hdone
    · exact (Prod.mk.inj (Option.some.inj hdone)).1
  rw [readCompactSize, andThen, hmarker]
  dsimp only
  rw [andThen, hm]
  dsimp only
  rw [if_pos (by omega), fail]

/-- A number of values, one after the other. -/
def readMany (reader : Reader α) : ℕ → Reader (List α)
  | 0 => done []
  | n + 1 => reader.andThen fun value =>
    (readMany reader n).andThen fun rest => done (value :: rest)

/-- Values that are read back up to a function are read so one after the other. -/
theorem reads_readMany {reader : Reader β} {f : α → β}
    (hreads : ∀ a ∈ values, Reads reader (enc a) (f a)) :
    Reads (readMany reader values.length) (values.flatMap enc) (values.map f) := by
  induction values with
  | nil => exact reads_done []
  | cons a rest ih =>
    have hhead : Reads reader (enc a) (f a) := hreads a (.head _)
    have htail := ih fun b hb => hreads b (List.mem_cons_of_mem a hb)
    exact hhead.andThen (htail.map (List.cons (f a)))

/-- A list with its length written first. -/
def readVector (limit : ℕ) (reader : Reader α) : Reader (List α) :=
  (readCompactSize limit).andThen (readMany reader)

/-- What holds of every value that a reader gives holds of the values of a list. -/
theorem forall_of_readVector (h : ∀ bytes value rest, reader bytes = some (value, rest) → p value)
    (hread : readVector limit reader bytes = some (values, rest)) : ∀ value ∈ values, p value := by
  obtain ⟨n, bytes, -, hmany⟩ := andThen_eq_some_iff.mp hread
  clear hread
  induction n generalizing bytes values rest with
  | zero =>
    cases hmany
    simp
  | succ n ih =>
    obtain ⟨first, bytes', hfirst, htail⟩ := andThen_eq_some_iff.mp hmany
    obtain ⟨others, bytes'', hothers, hdone⟩ := andThen_eq_some_iff.mp htail
    cases hdone
    intro value hvalue
    rcases List.mem_cons.mp hvalue with rfl | hrest
    · exact h _ _ _ hfirst
    · exact ih _ hothers value hrest

theorem reads_readVector_map {limit : ℕ} {reader : Reader β} {enc : α → List UInt8} {f : α → β}
    {values : List α} (hlength : values.length < 2 ^ 64) (hlimit : values.length ≤ limit)
    (hreads : ∀ a ∈ values, Reads reader (enc a) (f a)) :
    Reads (readVector limit reader) (lengthPrefixed enc values) (values.map f) :=
  (reads_readCompactSize hlength hlimit).andThen (reads_readMany hreads)

theorem reads_readVector (hlength : values.length < 2 ^ 64) (hlimit : values.length ≤ limit)
    (hreads : ∀ a ∈ values, Reads reader (enc a) a) :
    Reads (readVector limit reader) (lengthPrefixed enc values) values := by
  have hmap := @reads_readVector_map _ _ limit reader enc id values hlength hlimit hreads
  rwa [List.map_id] at hmap

/-! ## Integers of variable length -/

/-- The digits of `n`, written in front of `digits`.  All but the digit written
first carry the flag that says that more follow. -/
def writeDigits : ℕ → ℕ → ℕ → List UInt8 → List UInt8
  | 0, _, _, digits => digits
  | fuel + 1, n, flag, digits =>
    if n ≤ 127 then UInt8.ofNat (n % 128 + flag) :: digits
    else writeDigits fuel (n / 128 - 1) 128 (UInt8.ofNat (n % 128 + flag) :: digits)

/-- An unsigned integer of so many bits. -/
def writeVarInt (bits n : ℕ) : List UInt8 := writeDigits ((bits + 6) / 7) n 0 []

/-- Read on after the digits that made `n`; nothing above `max` is accepted. -/
def readDigits (max : ℕ) : ℕ → Reader ℕ
  | _, [] => none
  | n, byte :: rest =>
    if max / 128 < n then none
    else if 128 ≤ byte.toNat then
      if n * 128 + byte.toNat % 128 = max then none
      else readDigits max (n * 128 + byte.toNat % 128 + 1) rest
    else some (n * 128 + byte.toNat % 128, rest)

def readVarInt (bits : ℕ) : Reader ℕ := readDigits (2 ^ bits - 1) 0

/-- A digit that more digits follow. -/
private theorem readDigits_more (hdigit : digit < 128) (hmax : n * 128 + digit < max) :
    readDigits max n (UInt8.ofNat (digit + 128) :: rest) =
      readDigits max (n * 128 + digit + 1) rest := by
  have hbyte : (UInt8.ofNat (digit + 128)).toNat = digit + 128 := by
    rw [UInt8.toNat_ofNat']
    omega
  have hlow : (digit + 128) % 128 = digit := by omega
  rw [readDigits, hbyte, hlow, if_neg (by omega), if_pos (by omega), if_neg (by omega)]

/-- The last digit. -/
private theorem readDigits_last (hdigit : digit < 128) (hmax : n * 128 + digit ≤ max) :
    readDigits max n (UInt8.ofNat digit :: rest) = some (n * 128 + digit, rest) := by
  have hbyte : (UInt8.ofNat digit).toNat = digit := by
    rw [UInt8.toNat_ofNat']
    omega
  have hlow : digit % 128 = digit := by omega
  rw [readDigits, hbyte, hlow, if_neg (by omega), if_neg (by omega)]

private theorem writeDigits_append (fuel n flag : ℕ) (digits rest : List UInt8) :
    writeDigits fuel n flag digits ++ rest = writeDigits fuel n flag (digits ++ rest) := by
  induction fuel generalizing n flag digits with
  | zero => rfl
  | succ fuel ih =>
    rw [writeDigits, writeDigits]
    split_ifs with hsmall
    · rfl
    · exact ih (n / 128 - 1) 128 _

/-- The digits of `n` bring the reader to `n + 1` in front of what was written
before them. -/
private theorem readDigits_writeDigits {fuel : ℕ} (hfuel : n < 128 ^ (fuel + 1)) (hmax : n < max)
    (digits : List UInt8) :
    readDigits max 0 (writeDigits (fuel + 1) n 128 digits) = readDigits max (n + 1) digits := by
  induction fuel generalizing n digits with
  | zero =>
    rw [writeDigits, if_pos (by omega), readDigits_more (by omega) (by omega)]
    congr 1
    omega
  | succ fuel ih =>
    rw [writeDigits]
    split_ifs with hsmall
    · rw [readDigits_more (by omega) (by omega)]
      congr 1
      omega
    · rw [pow_succ] at hfuel
      rw [ih (by omega) (by omega), readDigits_more (by omega) (by omega)]
      congr 1
      omega

/-- An integer in range is read back, whatever follows it. -/
theorem reads_readVarInt {bits n : ℕ} (hbits : 0 < bits) (hn : n < 2 ^ bits) :
    Reads (readVarInt bits) (writeVarInt bits n) n := by
  intro rest
  obtain ⟨fuel, hfuel⟩ : ∃ fuel, (bits + 6) / 7 = fuel + 1 := ⟨(bits + 6) / 7 - 1, by omega⟩
  have hdigits : n < 128 ^ (fuel + 1) := calc n < 2 ^ bits := hn
      _ ≤ 2 ^ (7 * (fuel + 1)) := Nat.pow_le_pow_right (by omega) (by omega)
      _ = 128 ^ (fuel + 1) := pow_mul 2 7 (fuel + 1)
  rw [readVarInt, writeVarInt, writeDigits_append, List.nil_append, hfuel, writeDigits]
  split_ifs with hsmall
  · rw [readDigits_last (by omega) (by omega)]
    congr 2
    omega
  · -- the digits before the last bring the reader to `n / 128`
    obtain ⟨fuel, rfl⟩ : ∃ more, fuel = more + 1 := by
      refine ⟨fuel - 1, ?_⟩
      have hpos : fuel ≠ 0 := by
        rintro rfl
        omega
      omega
    rw [pow_succ] at hdigits
    rw [readDigits_writeDigits (by omega) (by omega), readDigits_last (by omega) (by omega)]
    congr 2
    omega

end Reader
