import Mathlib.Algebra.BigOperators.Finprod
import Mathlib.Algebra.Order.BigOperators.Group.Finset
import Mathlib.Tactic

/-!
# Ledgers

A ledger assigns an entry to some of its keys.  It is changed one key at a time
(`write`), or for a whole list of keys (`writeAll`, `eraseAll`).  Taking changes
back and making them again are both overlays (`overlay`).

Every entry weighs something.  The total changes with a single write by what is
written less what was there before, which is all that an account of whole runs
needs.
-/

namespace Ledger

open List

/-! ## Writes -/

section Writes

variable {K V : Type*} [DecidableEq K] {entries : K → Option V} {key other : K}
variable {old : K → Option V} {list : List (K × V)} {keys : List K}

/-- The ledger after a write. -/
def write (entries : K → Option V) (key : K) (entry : Option V) : K → Option V :=
  fun other => if other = key then entry else entries other

@[simp] theorem write_self (entries : K → Option V) (key : K) (entry : Option V) :
    write entries key entry key = entry := if_pos rfl

theorem write_of_ne {entry : Option V} (h : other ≠ key) :
    write entries key entry other = entries other := if_neg h

/-- The entries of a list are written, the first one first. -/
def writeAll (entries : K → Option V) : List (K × V) → K → Option V
  | [] => entries
  | (key, value) :: rest => writeAll (write entries key (some value)) rest

/-- The keys of a list are erased. -/
def eraseAll (entries : K → Option V) (keys : List K) : K → Option V :=
  fun other => if other ∈ keys then none else entries other

theorem eraseAll_of_mem (h : key ∈ keys) : eraseAll entries keys key = none :=
  if_pos h

theorem eraseAll_of_notMem (h : key ∉ keys) : eraseAll entries keys key = entries key := if_neg h

@[simp] theorem eraseAll_nil (entries : K → Option V) : eraseAll entries [] = entries := by
  funext key
  exact eraseAll_of_notMem (not_mem_nil)

theorem eraseAll_cons (entries : K → Option V) (key : K) (keys : List K) :
    eraseAll entries (key :: keys) = eraseAll (write entries key none) keys := by
  funext other
  by_cases hmem : other ∈ keys
  · rw [eraseAll_of_mem hmem, eraseAll_of_mem (mem_cons_of_mem key hmem)]
  · by_cases heq : other = key
    · subst heq
      rw [eraseAll_of_mem (.head _), eraseAll_of_notMem hmem, write_self]
    · rw [eraseAll_of_notMem hmem, write_of_ne heq, eraseAll_of_notMem]
      exact fun hcons => (mem_cons.mp hcons).elim heq hmem

theorem writeAll_of_notMem (h : key ∉ list.map Prod.fst) :
    writeAll entries list key = entries key := by
  induction list generalizing entries with
  | nil => rfl
  | cons entry rest ih =>
    rw [map_cons, mem_cons, not_or] at h
    rw [writeAll, ih h.2, write_of_ne h.1]

theorem writeAll_of_mem {value : V} (hkeys : (list.map Prod.fst).Nodup) (h : (key, value) ∈ list) :
    writeAll entries list key = some value := by
  induction list generalizing entries with
  | nil => exact absurd h (not_mem_nil)
  | cons entry rest ih =>
    rw [map_cons, nodup_cons] at hkeys
    rw [writeAll]
    rcases mem_cons.mp h with rfl | hrest
    · rw [writeAll_of_notMem hkeys.1, write_self]
    · exact ih hkeys.2 hrest

/-- What is found after the writes was written or had been there. -/
theorem mem_or_of_writeAll {value : V} (h : writeAll entries list key = some value) :
    (key, value) ∈ list ∨ entries key = some value := by
  induction list generalizing entries with
  | nil => exact .inr h
  | cons entry rest ih =>
    rcases ih h with hrest | hwritten
    · exact .inl (mem_cons_of_mem entry hrest)
    · by_cases heq : key = entry.1
      · subst heq
        rw [write_self] at hwritten
        cases hwritten
        exact .inl (.head _)
      · rw [write_of_ne heq] at hwritten
        exact .inr hwritten

/-! ### Overlays

Both taking back a change and making it again put the entries of a known ledger
on certain keys and leave the other keys alone, whatever the ledger they are
applied to.  Such overlays compose. -/

/-- The ledger `old` on the keys of a list, and `entries` elsewhere. -/
def overlay (keys : List K) (old entries : K → Option V) : K → Option V :=
  fun key => if key ∈ keys then old key else entries key

theorem overlay_of_mem (h : key ∈ keys) : overlay keys old entries key = old key := if_pos h

theorem overlay_of_notMem (h : key ∉ keys) : overlay keys old entries key = entries key := if_neg h

@[simp] theorem overlay_nil (old entries : K → Option V) : overlay [] old entries = entries := by
  funext key
  exact overlay_of_notMem not_mem_nil

/-- Two ledgers that agree off the keys. -/
theorem overlay_eq_left (h : ∀ key ∉ keys, entries key = old key) :
    overlay keys old entries = old := by
  funext key
  by_cases hmem : key ∈ keys
  · exact overlay_of_mem hmem
  · rw [overlay_of_notMem hmem, h key hmem]

theorem overlay_overlay {first second : List K} {middle : K → Option V}
    (h : ∀ key ∈ second, key ∉ first → middle key = old key) :
    overlay first old (overlay second middle entries) = overlay (first ++ second) old entries := by
  funext key
  by_cases hfirst : key ∈ first
  · rw [overlay_of_mem hfirst, overlay_of_mem (mem_append_left second hfirst)]
  · rw [overlay_of_notMem hfirst]
    by_cases hsecond : key ∈ second
    · rw [overlay_of_mem hsecond, overlay_of_mem (mem_append_right first hsecond),
        h key hsecond hfirst]
    · rw [overlay_of_notMem hsecond, overlay_of_notMem]
      exact fun hmem => (mem_append.mp hmem).elim hfirst hsecond

theorem overlay_congr {keys' : List K} (h : ∀ key, key ∈ keys ↔ key ∈ keys') :
    overlay keys old entries = overlay keys' old entries := by
  funext key
  unfold overlay
  simp only [h]

theorem overlay_append_comm (first second : List K) (old entries : K → Option V) :
    overlay (first ++ second) old entries = overlay (second ++ first) old entries :=
  overlay_congr fun _ => by simp only [mem_append, or_comm]

theorem write_overlay (key : K) :
    write (overlay keys old entries) key (old key) = overlay (key :: keys) old entries := by
  funext other
  by_cases heq : other = key
  · subst heq
    rw [write_self, overlay_of_mem (.head _)]
  · rw [write_of_ne heq]
    by_cases hmem : other ∈ keys
    · rw [overlay_of_mem hmem, overlay_of_mem (mem_cons_of_mem key hmem)]
    · rw [overlay_of_notMem hmem, overlay_of_notMem]
      exact fun hcons => (mem_cons.mp hcons).elim heq hmem

/-- What the writes leave on their own keys does not depend on what was there. -/
theorem writeAll_congr {entries' : K → Option V} (h : key ∈ list.map Prod.fst) :
    writeAll entries list key = writeAll entries' list key := by
  induction list generalizing entries entries' with
  | nil => exact absurd h not_mem_nil
  | cons entry rest ih =>
    rw [writeAll, writeAll]
    by_cases hrest : key ∈ rest.map Prod.fst
    · exact ih hrest
    · rw [map_cons] at h
      obtain rfl : key = entry.1 := (mem_cons.mp h).resolve_right hrest
      rw [writeAll_of_notMem hrest, writeAll_of_notMem hrest, write_self, write_self]

/-- Making a change on any ledger is the overlay with the ledger that the change once led
to. -/
theorem replay (entries other : K → Option V) (keys : List K) (list : List (K × V)) :
    writeAll (eraseAll other keys) list =
      overlay (keys ++ list.map Prod.fst) (writeAll (eraseAll entries keys) list) other := by
  funext key
  by_cases hwritten : key ∈ list.map Prod.fst
  · rw [overlay_of_mem (mem_append_right keys hwritten)]
    exact writeAll_congr hwritten
  · rw [writeAll_of_notMem hwritten]
    by_cases herased : key ∈ keys
    · rw [eraseAll_of_mem herased, overlay_of_mem (mem_append_left _ herased),
        writeAll_of_notMem hwritten, eraseAll_of_mem herased]
    · rw [eraseAll_of_notMem herased, overlay_of_notMem]
      exact fun hmem => (mem_append.mp hmem).elim herased hwritten

/-- Writes of changed entries into a ledger that is changed in the same way. -/
theorem writeAll_map (f : V → V) (entries : K → Option V) (list : List (K × V)) :
    writeAll (fun key => (entries key).map f) (list.map fun entry => (entry.1, f entry.2)) =
      fun key => (writeAll entries list key).map f := by
  induction list generalizing entries with
  | nil => rfl
  | cons entry rest ih =>
    rw [map_cons, writeAll, writeAll, ← ih]
    congr 1
    funext key
    unfold write
    split_ifs
    · rfl
    · rfl

theorem eraseAll_eq_overlay (entries : K → Option V) (keys : List K) :
    eraseAll entries keys = overlay keys (fun _ => none) entries := rfl

end Writes

/-! ## Totals -/

variable {K V : Type*} (weight : V → ℤ)

/-- What is held under a key; nothing weighs zero. -/
def worth (entries : K → Option V) (key : K) : ℤ := (entries key).elim 0 weight

/-- The sum over all keys. -/
noncomputable def total (entries : K → Option V) : ℤ := ∑ᶠ key, worth weight entries key

/-- No entry weighs less than nothing. -/
def Nonneg (entries : K → Option V) : Prop :=
  ∀ key value, entries key = some value → 0 ≤ weight value

variable {weight : V → ℤ} {entries : K → Option V}

@[simp] theorem total_empty : total weight (fun _ : K => none) = 0 := by
  simp [total, worth]

theorem Nonneg.worth_nonneg (h : Nonneg weight entries) (key : K) :
    0 ≤ worth weight entries key := by
  unfold worth
  cases hentry : entries key with
  | none => exact le_rfl
  | some value => exact h key value hentry

theorem Nonneg.total_nonneg (h : Nonneg weight entries) : 0 ≤ total weight entries :=
  finsum_nonneg h.worth_nonneg

variable [DecidableEq K]

theorem Nonneg.write (h : Nonneg weight entries) {key : K} {entry : Option V}
    (hentry : ∀ value, entry = some value → 0 ≤ weight value) :
    Nonneg weight (write entries key entry) := by
  intro other value hother
  unfold Ledger.write at hother
  split_ifs at hother
  · exact hentry value hother
  · exact h other value hother

/-- A write changes the total by the difference of the two entries. -/
theorem total_write [Finite K] (entries : K → Option V) (key : K) (entry : Option V) :
    total weight (write entries key entry) =
      total weight entries - worth weight entries key + entry.elim 0 weight := by
  have := Fintype.ofFinite K
  -- both sums agree away from the key
  have hrest : ∑ other ∈ {key}ᶜ, worth weight (write entries key entry) other =
      ∑ other ∈ {key}ᶜ, worth weight entries other := by
    refine Finset.sum_congr rfl fun other hother => ?_
    have hne : other ≠ key := by simpa using hother
    simp only [worth, write, if_neg hne]
  have hkey : worth weight (write entries key entry) key = entry.elim 0 weight := by
    simp [worth, write]
  unfold total
  rw [finsum_eq_sum_of_fintype, finsum_eq_sum_of_fintype, Fintype.sum_eq_add_sum_compl key,
    Fintype.sum_eq_add_sum_compl key (worth weight entries), hrest, hkey]
  ring

/-- Erasing distinct keys takes away what was held under them. -/
theorem total_eraseAll [Finite K] {keys : List K} (hkeys : keys.Nodup) (entries : K → Option V) :
    total weight (eraseAll entries keys) =
      total weight entries - (keys.map (worth weight entries)).sum := by
  induction keys generalizing entries with
  | nil => simp
  | cons key rest ih =>
    rw [nodup_cons] at hkeys
    have hrest : rest.map (worth weight (Ledger.write entries key none)) =
        rest.map (worth weight entries) := by
      refine map_congr_left fun other hother => ?_
      have hne : other ≠ key := fun heq => hkeys.1 (heq ▸ hother)
      rw [worth, write_of_ne hne, worth]
    rw [eraseAll_cons, ih hkeys.2, total_write, hrest, map_cons, sum_cons]
    simp only [Option.elim_none]
    ring

theorem Nonneg.eraseAll (h : Nonneg weight entries) (keys : List K) :
    Nonneg weight (eraseAll entries keys) := by
  intro key value hkey
  unfold Ledger.eraseAll at hkey
  split_ifs at hkey
  exact h key value hkey

/-- What is written adds at most its weight, as nothing that it replaces weighs less
than nothing. -/
theorem Nonneg.writeAll [Finite K] {list : List (K × V)} (h : Nonneg weight entries)
    (hlist : ∀ entry ∈ list, 0 ≤ weight entry.2) :
    Nonneg weight (writeAll entries list) ∧ total weight (Ledger.writeAll entries list) ≤
      total weight entries + (list.map fun entry => weight entry.2).sum := by
  induction list generalizing entries with
  | nil => exact ⟨h, by simp [Ledger.writeAll]⟩
  | cons entry rest ih =>
    have hentry := hlist entry (.head _)
    have hwritten : Nonneg weight (Ledger.write entries entry.1 (some entry.2)) :=
      h.write fun value hvalue => Option.some.inj hvalue ▸ hentry
    obtain ⟨hnonneg, htotal⟩ := ih hwritten fun other hother =>
      hlist other (.tail _ hother)
    have hone := @total_write _ _ weight _ _ entries entry.1 (some entry.2)
    have hold := h.worth_nonneg entry.1
    simp only [Option.elim_some] at hone
    simp only [map_cons, sum_cons]
    exact ⟨hnonneg, by rw [Ledger.writeAll]; linarith⟩

end Ledger
