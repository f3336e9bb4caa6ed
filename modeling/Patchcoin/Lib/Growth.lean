import Mathlib.Data.List.Induction
import Mathlib.Data.List.Perm.Basic
import Mathlib.Logic.Function.Basic

/-!
# Maps that grow by entries that need other entries

Events arrive one after the other, and each writes at most one entry of a map, under
its own key.  What it writes may depend on the map, but only through the entry of its
parent and what hangs below it, and it writes nothing if the parent is missing.

If parents come before their children, the order does not matter (`fill_perm`).  The
proof compares one order with the finished map of the other: what an event finds at
its parent's key is final in both, because nothing writes there later.
-/

namespace Growth

open List

variable {ε κ ν : Type*}
variable {first second : κ → Option ν}

/-- Every entry of one map is an entry of the other. -/
def Within (first second : κ → Option ν) : Prop :=
  ∀ key value, first key = some value → second key = some value

theorem Within.refl (map : κ → Option ν) : Within map map := fun _ _ h => h

theorem Within.trans {third : κ → Option ν} (h : Within first second) (h' : Within second third) :
    Within first third :=
  fun key value hvalue => h' key value (h key value hvalue)

theorem Within.antisymm (h : Within first second) (h' : Within second first) : first = second := by
  funext key
  apply Option.ext
  intro value
  exact ⟨h key value, h' key value⟩

/-- Every event has a key of its own, and no event comes before its parent. -/
structure ParentsFirst (keyOf parentOf : ε → κ) (events : List ε) : Prop where
  nodup : (events.map keyOf).Nodup
  ordered : events.Pairwise fun earlier later => parentOf earlier ≠ keyOf later
  irrefl : ∀ event ∈ events, parentOf event ≠ keyOf event

namespace ParentsFirst

variable {keyOf parentOf : ε → κ} {before after : List ε} {event : ε}

/-- Around an event nothing else writes at its key, and nothing after it at its parent's. -/
theorem split (h : ParentsFirst keyOf parentOf (before ++ event :: after)) :
    keyOf event ∉ before.map keyOf ∧ keyOf event ∉ after.map keyOf ∧
      parentOf event ∉ (event :: after).map keyOf := by
  have hnodup := h.nodup
  rw [map_append, map_cons] at hnodup
  obtain ⟨-, hrest, hdisjoint⟩ := nodup_append.mp hnodup
  obtain ⟨-, hordered, -⟩ := pairwise_append.mp h.ordered
  refine ⟨?_, (nodup_cons.mp hrest).1, ?_⟩
  · intro hmem
    exact hdisjoint _ hmem _ (.head _) rfl
  · rw [map_cons, mem_cons, not_or]
    refine ⟨h.irrefl event (by simp), ?_⟩
    intro hmem
    obtain ⟨later, hlater, hkey⟩ := mem_map.mp hmem
    exact (pairwise_cons.mp hordered).1 later hlater hkey.symm

end ParentsFirst

variable [DecidableEq κ]

section

variable (keyOf : ε → κ) (entryOf : ε → (κ → Option ν) → Option ν)

/-- An event writes its entry, unless there is one already. -/
def add (map : κ → Option ν) (event : ε) : κ → Option ν :=
  match map (keyOf event) with
  | some _ => map
  | none => Function.update map (keyOf event) (entryOf event map)

def fill (events : List ε) (map : κ → Option ν) : κ → Option ν :=
  events.foldl (add keyOf entryOf) map

end

variable {keyOf parentOf : ε → κ} {entryOf : ε → (κ → Option ν) → Option ν}
variable {map : κ → Option ν}

theorem add_of_ne {event : ε} {key : κ} (h : key ≠ keyOf event) :
    add keyOf entryOf map event key = map key := by
  unfold add
  cases map (keyOf event) with
  | some known => rfl
  | none => exact Function.update_of_ne h ..

theorem add_self {event : ε} (h : map (keyOf event) = none) :
    add keyOf entryOf map event (keyOf event) = entryOf event map := by
  unfold add
  rw [h]
  exact Function.update_self ..

theorem within_add (map : κ → Option ν) (event : ε) : Within map (add keyOf entryOf map event) := by
  intro key value hvalue
  by_cases hkey : key = keyOf event
  · subst hkey
    unfold add
    rw [hvalue]
    exact hvalue
  · rw [add_of_ne hkey]
    exact hvalue

theorem within_fill (events : List ε) (map : κ → Option ν) :
    Within map (fill keyOf entryOf events map) := by
  induction events generalizing map with
  | nil => exact Within.refl map
  | cons event rest ih => exact (within_add map event).trans (ih _)

/-- A key that no event has is not written. -/
theorem fill_of_notMem {events : List ε} {key : κ} (h : key ∉ events.map keyOf) :
    fill keyOf entryOf events map key = map key := by
  induction events generalizing map with
  | nil => rfl
  | cons event rest ih =>
    rw [map_cons, mem_cons, not_or] at h
    show fill keyOf entryOf rest (add keyOf entryOf map event) key = map key
    rw [ih h.2, add_of_ne h.1]

theorem fill_append (events later : List ε) (map : κ → Option ν) :
    fill keyOf entryOf (events ++ later) map =
      fill keyOf entryOf later (fill keyOf entryOf events map) :=
  foldl_append ..

section

variable {Sound : (κ → Option ν) → Prop}
variable {other : List ε} {map : κ → Option ν}

/-- In sound maps, what an event writes depends on its parent and what is below it, and
it writes nothing without a parent. -/
structure Local (keyOf parentOf : ε → κ) (entryOf : ε → (κ → Option ν) → Option ν)
    (Sound : (κ → Option ν) → Prop) : Prop where
  sound : ∀ event map, Sound map → Sound (add keyOf entryOf map event)
  needs : ∀ event map, map (parentOf event) = none → entryOf event map = none
  depends : ∀ event first second whole, Sound first → Sound second →
    Within first whole → Within second whole →
    first (parentOf event) = second (parentOf event) → entryOf event first = entryOf event second

section

variable (hlocal : Local keyOf parentOf entryOf Sound)
include hlocal

theorem Local.sound_fill (events : List ε)
    (h : Sound map) : Sound (fill keyOf entryOf events map) := by
  induction events generalizing map with
  | nil => exact h
  | cons event rest ih => exact ih (hlocal.sound event map h)

/-- One order, up to some event, compared with the whole of the other. -/
theorem Local.within_fill_fill (hmap : Sound map)
    (hother : ParentsFirst keyOf parentOf other) (before after : List ε)
    (hevents : ParentsFirst keyOf parentOf (before ++ after))
    (hmem : ∀ event ∈ before, event ∈ other) :
    Within (fill keyOf entryOf before map) (fill keyOf entryOf other map) := by
  induction before using reverseRecOn generalizing after with
  | nil => exact within_fill other map
  | append_singleton before event ih =>
    have hsplit : before ++ [event] ++ after = before ++ event :: after := by simp
    rw [hsplit] at hevents
    have hbefore := ih (event :: after) hevents fun earlier hearlier =>
      hmem earlier (mem_append_left _ hearlier)
    obtain ⟨hkey, -, -⟩ := hevents.split
    intro key value hvalue
    rw [fill_append] at hvalue
    by_cases hown : key = keyOf event
    · subst hown
      cases hknown : fill keyOf entryOf before map (keyOf event) with
      | some known =>
        have hsame : add keyOf entryOf (fill keyOf entryOf before map) event (keyOf event) =
            some known := within_add _ event _ _ hknown
        have hvalue' : some known = some value := hsame.symm.trans hvalue
        rw [← hvalue']
        exact hbefore _ _ hknown
      | none =>
        have hentry : entryOf event (fill keyOf entryOf before map) = some value :=
          (add_self hknown).symm.trans hvalue
        -- the event in the other order
        obtain ⟨before', after', rfl⟩ :=
          append_of_mem (hmem event (mem_append_right _ (mem_singleton_self _)))
        obtain ⟨hkey', hlater', hparent'⟩ := hother.split
        have hstart : map (keyOf event) = none := by
          rw [fill_of_notMem hkey] at hknown
          exact hknown
        have hnone : fill keyOf entryOf before' map (keyOf event) = none := by
          rw [fill_of_notMem hkey']
          exact hstart
        have hfinal : fill keyOf entryOf (before' ++ event :: after') map (keyOf event) =
            entryOf event (fill keyOf entryOf before' map) := by
          rw [fill_append]
          show fill keyOf entryOf after' (add keyOf entryOf _ event) (keyOf event) = _
          rw [fill_of_notMem hlater', add_self hnone]
        have hwithin' : Within (fill keyOf entryOf before' map)
            (fill keyOf entryOf (before' ++ event :: after') map) := by
          rw [fill_append]
          exact within_fill _ _
        -- the parent is final in the other order when the event arrives
        have hparent : fill keyOf entryOf before map (parentOf event) =
            fill keyOf entryOf before' map (parentOf event) := by
          cases hfound : fill keyOf entryOf before map (parentOf event) with
          | none =>
            rw [hlocal.needs event _ hfound] at hentry
            cases hentry
          | some parent =>
            have hthere := hbefore _ _ hfound
            rw [fill_append, fill_of_notMem hparent'] at hthere
            exact hthere.symm
        rw [hfinal, ← hlocal.depends event _ _ _ (hlocal.sound_fill before hmap)
          (hlocal.sound_fill before' hmap) hbefore hwithin' hparent]
        exact hentry
    · have hsame : add keyOf entryOf (fill keyOf entryOf before map) event key =
          fill keyOf entryOf before map key := add_of_ne hown
      exact hbefore key value (hsame.symm.trans hvalue)

/-- Two orders of the same events, parents first in both, fill a map in the same way. -/
theorem Local.fill_perm (hmap : Sound map)
    {events : List ε} (hperm : events.Perm other) (hevents : ParentsFirst keyOf parentOf events)
    (hother : ParentsFirst keyOf parentOf other) :
    fill keyOf entryOf events map = fill keyOf entryOf other map := by
  refine Within.antisymm ?_ ?_
  · exact hlocal.within_fill_fill hmap hother events [] (by simpa using hevents)
      fun event => hperm.mem_iff.mp
  · exact hlocal.within_fill_fill hmap hevents other [] (by simpa using hother)
      fun event => hperm.mem_iff.mpr

end

end

end Growth
