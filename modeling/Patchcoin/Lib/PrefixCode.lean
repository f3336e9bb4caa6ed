import Mathlib.Data.List.Basic
import Mathlib.Data.Set.Function
import Mathlib.Tactic

/-!
# Prefix-free codes

A byte format is read from left to right, and a reader has to know where one
field ends and the next begins.  `PrefixFree s enc` says exactly that for the
values in `s`: whenever two encoded values start one and the same string, the
values agree and so does what follows them.  The format of a record is then
analysed field by field, with no decoder in sight.

The second half gives the two formats everything else is built from, integers
of a fixed width in little-endian order and lists whose length is written
first.
-/

namespace PrefixCode

open List

variable {α β γ : Type*}
variable {s : Set α} {enc : α → List β}

/-- Two values of `s` whose encodings start the same string are equal, and the
rest of the string is the same. -/
def PrefixFree (s : Set α) (enc : α → List β) : Prop :=
  ∀ ⦃a⦄, a ∈ s → ∀ ⦃b⦄, b ∈ s → ∀ ⦃r t : List β⦄, enc a ++ r = enc b ++ t → a = b ∧ r = t

theorem PrefixFree.injOn (henc : PrefixFree s enc) : Set.InjOn enc s := by
  intro a ha b hb heq
  exact (henc ha hb (r := []) (t := []) (by rw [heq])).1

theorem PrefixFree.mono {t : Set α} (henc : PrefixFree t enc) (hst : s ⊆ t) : PrefixFree s enc :=
  fun _ ha _ hb _ _ heq => henc (hst ha) (hst hb) heq

/-- Words of one common length are a prefix-free code as soon as they are
pairwise different. -/
theorem prefixFree_of_length {n : ℕ} (hlength : ∀ a ∈ s, (enc a).length = n)
    (hinj : Set.InjOn enc s) : PrefixFree s enc := by
  intro a ha b hb r t heq
  obtain ⟨hword, hrest⟩ := append_inj heq (by rw [hlength a ha, hlength b hb])
  exact ⟨hinj ha hb hword, hrest⟩

/-- Encoding through an injective map. -/
theorem PrefixFree.comp {t : Set γ} {enc : γ → List β} {f : α → γ} (henc : PrefixFree t enc)
    (hmaps : ∀ a ∈ s, f a ∈ t) (hinj : Set.InjOn f s) : PrefixFree s fun a => enc (f a) := by
  intro a ha b hb r t heq
  obtain ⟨himage, hrest⟩ := henc (hmaps a ha) (hmaps b hb) heq
  exact ⟨hinj ha hb himage, hrest⟩

/-- A list of known length, one encoded element after the other. -/
theorem PrefixFree.flatMap (henc : PrefixFree s enc) :
    ∀ {first second : List α}, (∀ a ∈ first, a ∈ s) → (∀ a ∈ second, a ∈ s) →
      first.length = second.length → ∀ {r t : List β},
      first.flatMap enc ++ r = second.flatMap enc ++ t → first = second ∧ r = t := by
  intro first
  induction first with
  | nil =>
    intro second _ _ hlength r t heq
    have hsecond : second = [] := eq_nil_of_length_eq_zero hlength.symm
    subst hsecond
    exact ⟨rfl, heq⟩
  | cons a rest ih =>
    intro second hfirst hsecond hlength r t heq
    cases second with
    | nil => simp at hlength
    | cons b more =>
      simp only [flatMap_cons, append_assoc] at heq
      obtain ⟨rfl, htail⟩ := henc (hfirst a (.head _))
        (hsecond b (.head _)) heq
      obtain ⟨rfl, hrest⟩ := ih (fun x hx => hfirst x (.tail _ hx))
        (fun x hx => hsecond x (.tail _ hx))
        (by simpa using hlength) htail
      exact ⟨rfl, hrest⟩

/-- Lists whose elements agree in two parts, if the two parts determine an element. -/
theorem eq_of_map_eq_map {δ : Type*} {f : α → β} {g : α → δ} {first second : List α}
    (hparts : ∀ a ∈ first, ∀ b ∈ second, f a = f b → g a = g b → a = b)
    (hf : first.map f = second.map f) (hg : first.map g = second.map g) : first = second := by
  induction first generalizing second with
  | nil =>
    rw [map_nil] at hf
    exact (map_eq_nil_iff.mp hf.symm).symm
  | cons a rest ih =>
    cases second with
    | nil => simp at hf
    | cons b more =>
      simp only [map_cons, cons.injEq] at hf hg
      have hhead : a = b := hparts a (.head _) b (.head _) hf.1 hg.1
      have htail : rest = more := ih (fun x hx y hy => hparts x (.tail _ hx) y (.tail _ hy))
          hf.2 hg.2
      rw [hhead, htail]

/-! ## Little-endian integers -/

/-- The `width` low bytes of `n`, least significant first. -/
def leBytes : ℕ → ℕ → List UInt8
  | 0, _ => []
  | width + 1, n => UInt8.ofNat n :: leBytes width (n / 256)

@[simp] theorem length_leBytes (width n : ℕ) : (leBytes width n).length = width := by
  induction width generalizing n with
  | zero => rfl
  | succ width ih => simp [leBytes, ih]

theorem leBytes_injOn (width : ℕ) : Set.InjOn (leBytes width) {n | n < 256 ^ width} := by
  induction width with
  | zero =>
    intro a ha b hb _
    simp only [pow_zero, Set.mem_ofPred_eq, Nat.lt_one_iff] at ha hb
    rw [ha, hb]
  | succ width ih =>
    intro a ha b hb heq
    simp only [Set.mem_ofPred_eq, pow_succ] at ha hb
    simp only [leBytes, cons.injEq] at heq
    obtain ⟨hlow, hhigh⟩ := heq
    have hmod : a % 256 = b % 256 := by
      have := congrArg UInt8.toNat hlow
      simpa using this
    have hdiv : a / 256 = b / 256 :=
      ih (by simp only [Set.mem_ofPred_eq]; omega) (by simp only [Set.mem_ofPred_eq]; omega) hhigh
    omega

theorem leBytes_prefixFree (width : ℕ) : PrefixFree {n | n < 256 ^ width} (leBytes width) :=
  prefixFree_of_length (fun n _ => length_leBytes width n) (leBytes_injOn width)

/-! ## Length prefixes -/

/-- The variable-length encoding of a length: one byte below 253, else a marker
byte and two, four or eight bytes. -/
def compactSize (n : ℕ) : List UInt8 :=
  if n < 253 then leBytes 1 n
  else if n ≤ 0xffff then 253 :: leBytes 2 n
  else if n ≤ 0xffffffff then 254 :: leBytes 4 n
  else 255 :: leBytes 8 n

theorem length_compactSize_pos (n : ℕ) : 0 < (compactSize n).length := by
  unfold compactSize
  split_ifs <;> simp

theorem length_compactSize_mono {n m : ℕ} (hle : n ≤ m) :
    (compactSize n).length ≤ (compactSize m).length := by
  unfold compactSize
  split_ifs <;> first | omega | simp

theorem compactSize_prefixFree : PrefixFree {n | n < 2 ^ 64} compactSize := by
  -- The marker byte tells the four widths apart: a one-byte length is below 253.
  have hsmall : ∀ n : ℕ, n < 253 → ∃ byte : UInt8, leBytes 1 n = [byte] ∧ byte.toNat = n := by
    intro n hn
    refine ⟨UInt8.ofNat n, rfl, ?_⟩
    simp only [UInt8.toNat_ofNat']
    omega
  have hclash : ∀ n : ℕ, n < 253 → ∀ (marker : UInt8) (r t : List UInt8), 253 ≤ marker.toNat →
      leBytes 1 n ++ r ≠ marker :: t := by
    intro n hn marker r t hmarker heq
    obtain ⟨byte, hbyte, hvalue⟩ := hsmall n hn
    rw [hbyte] at heq
    have : byte = marker := by simpa using (cons.inj heq).1
    rw [this] at hvalue
    omega
  intro a ha b hb r t heq
  simp only [Set.mem_ofPred_eq] at ha hb
  have hfixed : ∀ width, a < 256 ^ width → b < 256 ^ width →
      leBytes width a ++ r = leBytes width b ++ t → a = b ∧ r = t :=
    fun width hwa hwb h => leBytes_prefixFree width hwa hwb h
  unfold compactSize at heq
  split_ifs at heq
  all_goals try simp only [cons_append] at heq
  -- Equal widths: the integers agree.  Different widths: the markers do not.
  all_goals
    first
    | exact hfixed 1 (by omega) (by omega) heq
    | exact hfixed 2 (by omega) (by omega) (cons.inj heq).2
    | exact hfixed 4 (by omega) (by omega) (cons.inj heq).2
    | exact hfixed 8 (by omega) (by omega) (cons.inj heq).2
    | exact absurd heq (hclash _ (by assumption) _ _ _ (by decide))
    | exact absurd heq.symm (hclash _ (by assumption) _ _ _ (by decide))
    | exact absurd (cons.inj heq).1 (by decide)

/-- A list with its length written first. -/
def lengthPrefixed (enc : α → List UInt8) (values : List α) : List UInt8 :=
  compactSize values.length ++ values.flatMap enc

theorem lengthPrefixed_prefixFree {enc : α → List UInt8} (henc : PrefixFree s enc) :
    PrefixFree {values : List α | values.length < 2 ^ 64 ∧ ∀ a ∈ values, a ∈ s}
      (lengthPrefixed enc) := by
  intro first hfirst second hsecond r t heq
  simp only [lengthPrefixed, append_assoc] at heq
  obtain ⟨hlength, hbody⟩ := compactSize_prefixFree hfirst.1 hsecond.1 heq
  exact henc.flatMap hfirst.2 hsecond.2 hlength hbody

theorem length_le_length_flatMap (hpos : ∀ a, 0 < (enc a).length) :
    ∀ values : List α, values.length ≤ (values.flatMap enc).length := by
  intro values
  induction values with
  | nil => simp
  | cons a rest ih =>
    have := hpos a
    simp only [length_cons, flatMap_cons, length_append]
    omega

theorem length_le_length_flatMap_of_mem {enc : α → List β} {a : α} {values : List α}
    (hmem : a ∈ values) : (enc a).length ≤ (values.flatMap enc).length := by
  induction values with
  | nil => simp at hmem
  | cons b rest ih =>
    simp only [flatMap_cons, length_append]
    rcases mem_cons.mp hmem with rfl | hrest
    · omega
    · have := ih hrest
      omega

theorem length_le_lengthPrefixed {enc : α → List UInt8} (hpos : ∀ a, 0 < (enc a).length)
    (values : List α) : values.length ≤ (lengthPrefixed enc values).length := by
  have hbody := length_le_length_flatMap hpos values
  simp only [lengthPrefixed, length_append]
  omega

theorem length_le_lengthPrefixed_of_mem {enc : α → List UInt8} {a : α} {values : List α}
    (hmem : a ∈ values) : (enc a).length ≤ (lengthPrefixed enc values).length := by
  have hbody := @length_le_length_flatMap_of_mem _ _ enc _ _ hmem
  simp only [lengthPrefixed, length_append]
  omega

theorem length_lengthPrefixed_le_append {enc : α → List UInt8} (values more : List α) :
    (lengthPrefixed enc values).length ≤ (lengthPrefixed enc (values ++ more)).length := by
  have hsize : (compactSize values.length).length ≤ (compactSize (values ++ more).length).length :=
    length_compactSize_mono (by simp)
  simp only [lengthPrefixed, length_append, flatMap_append] at hsize ⊢
  omega

end PrefixCode
