import Mathlib.Algebra.BigOperators.Group.List.Lemmas
import Mathlib.Tactic

/-!
# Grouping a list by keys

A list of values with keys is collected into a map: the values of one key are combined, in
their order, starting from a unit.  `Collects` says what the map then holds under every key.
It is kept by adding one more value (`Collects.add`), and an additive measure of the values
has the same sum over the map as over the list (`Collects.sum_toList`).
-/

namespace Grouping

open Std List

section

variable {κ M : Type*} [DecidableEq κ]

/-- The values of one key, in order. -/
def valuesAt (entries : List (κ × M)) (key : κ) : List M :=
  (entries.filter fun entry => entry.1 = key).map Prod.snd

theorem valuesAt_append (first second : List (κ × M)) (key : κ) :
    valuesAt (first ++ second) key = valuesAt first key ++ valuesAt second key := by
  unfold valuesAt
  rw [filter_append, map_append]

theorem valuesAt_singleton (entry : κ × M) (key : κ) :
    valuesAt [entry] key = if entry.1 = key then [entry.2] else [] := by
  unfold valuesAt
  by_cases hkey : entry.1 = key <;> simp [hkey]

theorem valuesAt_ne_nil_iff {entries : List (κ × M)} {key : κ} :
    valuesAt entries key ≠ [] ↔ ∃ value, (key, value) ∈ entries := by
  unfold valuesAt
  rw [ne_eq, map_eq_nil_iff, filter_eq_nil_iff]
  simp

/-- Summing up key by key. -/
theorem sum_valuesAt (measure : M → ℤ) {keys : List κ} (hnodup : keys.Nodup)
    (entries : List (κ × M)) (hmem : ∀ entry ∈ entries, entry.1 ∈ keys) :
    (keys.map fun key => ((valuesAt entries key).map measure).sum).sum =
      (entries.map fun entry => measure entry.2).sum := by
  induction entries with
  | nil => simp [valuesAt]
  | cons entry rest ih =>
    have hrest := ih fun other hother => hmem other (.tail _ hother)
    have hkey (key : κ) : ((valuesAt (entry :: rest) key).map measure).sum =
        (if key = entry.1 then measure entry.2 else 0) +
          ((valuesAt rest key).map measure).sum := by
      have happend := valuesAt_append [entry] rest key
      rw [singleton_append, valuesAt_singleton] at happend
      rw [happend, map_append, sum_append]
      by_cases hsame : entry.1 = key
      · rw [if_pos hsame, if_pos hsame.symm, map_singleton, sum_singleton]
      · rw [if_neg hsame, if_neg (Ne.symm hsame), map_nil, sum_nil]
    have hcount : keys.count entry.1 = 1 :=
      count_eq_one_of_mem hnodup (hmem entry mem_cons_self)
    calc (keys.map fun key => ((valuesAt (entry :: rest) key).map measure).sum).sum
        = (keys.map fun key => (if key = entry.1 then measure entry.2 else 0)).sum +
            (keys.map fun key => ((valuesAt rest key).map measure).sum).sum := by
          rw [← sum_map_add]
          exact congrArg sum (map_congr_left fun key _ => hkey key)
      _ = measure entry.2 + (rest.map fun entry => measure entry.2).sum := by
          rw [hrest, sum_map_ite_eq keys (fun _ => measure entry.2) (fun _ => 0), hcount]
          simp
      _ = ((entry :: rest).map fun entry => measure entry.2).sum := by
          rw [map_cons, sum_cons]

end

section

variable {κ M : Type*} [Ord κ] [TransOrd κ] [DecidableEq κ]
variable {unit : M} {op : M → M → M} {map : ExtTreeMap κ M compare} {entries : List (κ × M)}

/-- One more value is combined with what the map holds under its key. -/
def add (unit : M) (op : M → M → M) (map : ExtTreeMap κ M compare) (key : κ) (value : M) :
    ExtTreeMap κ M compare :=
  map.insert key (op (map.getD key unit) value)

/-- Under every key of the list the map holds its values, combined in order. -/
def Collects (unit : M) (op : M → M → M) (map : ExtTreeMap κ M compare)
    (entries : List (κ × M)) : Prop :=
  ∀ key, map[key]? =
    if valuesAt entries key = [] then none else some ((valuesAt entries key).foldl op unit)

theorem collects_nil : Collects unit op (∅ : ExtTreeMap κ M compare) [] := by
  intro key
  simp [valuesAt]

theorem Collects.getD (h : Collects unit op map entries) (key : κ) :
    map.getD key unit = (valuesAt entries key).foldl op unit := by
  rw [ExtTreeMap.getD_eq_getD_getElem?, h key]
  split_ifs with hnone
  · rw [hnone]
    rfl
  · rfl

theorem Collects.isSome_iff (h : Collects unit op map entries) {key : κ} :
    map[key]?.isSome = true ↔ ∃ value, (key, value) ∈ entries := by
  rw [h key, ← valuesAt_ne_nil_iff]
  split_ifs with hnone <;> simp [hnone]

variable [LawfulEqOrd κ]

theorem Collects.add (h : Collects unit op map entries) (key : κ) (value : M) :
    Collects unit op (Grouping.add unit op map key value) (entries ++ [(key, value)]) := by
  intro other
  unfold Grouping.add
  rw [ExtTreeMap.getElem?_insert, valuesAt_append, valuesAt_singleton]
  by_cases hsame : key = other
  · subst hsame
    rw [if_pos (ReflCmp.compare_self), if_pos rfl, if_neg (by simp), foldl_append, h.getD]
    rfl
  · rw [if_neg fun heq => hsame (LawfulEqCmp.eq_of_compare heq), if_neg hsame, append_nil]
    exact h other

/-- A measure that is additive over the combinations sums up to the same. -/
theorem Collects.sum_toList (measure : M → ℤ) (hunit : measure unit = 0)
    (hop : ∀ a b, measure (op a b) = measure a + measure b) (h : Collects unit op map entries) :
    (map.toList.map fun entry => measure entry.2).sum =
      (entries.map fun entry => measure entry.2).sum := by
  have hfold (values : List M) (start : M) :
      measure (values.foldl op start) = measure start + (values.map measure).sum := by
    induction values generalizing start with
    | nil => simp
    | cons value rest ih =>
      rw [foldl_cons, ih, hop, map_cons, sum_cons, add_assoc]
  have hvalue : ∀ entry ∈ map.toList,
      measure entry.2 = ((valuesAt entries entry.1).map measure).sum := by
    intro entry hentry
    have hget := ExtTreeMap.mem_toList_iff_getElem?_eq_some.mp hentry
    have hgetD : map.getD entry.1 unit = entry.2 := by
      rw [ExtTreeMap.getD_eq_getD_getElem?, hget, Option.getD_some]
    rw [← hgetD, h.getD, hfold, hunit, zero_add]
  have hmem : ∀ entry ∈ entries, entry.1 ∈ map.keys := by
    intro entry hentry
    have hsome := h.isSome_iff.mpr ⟨entry.2, hentry⟩
    rw [ExtTreeMap.mem_keys, ExtTreeMap.mem_iff_isSome_getElem?]
    exact hsome
  calc (map.toList.map fun entry => measure entry.2).sum
      = (map.toList.map fun entry => ((valuesAt entries entry.1).map measure).sum).sum :=
        congrArg sum (map_congr_left hvalue)
    _ = (map.keys.map fun key => ((valuesAt entries key).map measure).sum).sum := by
        rw [← ExtTreeMap.map_fst_toList_eq_keys, map_map]
        rfl
    _ = (entries.map fun entry => measure entry.2).sum :=
        sum_valuesAt measure ExtTreeMap.nodup_keys entries hmem

end

end Grouping
