import Patchcoin.Claim.Valid

/-!
# The claim pool

`g_claims` maps the source of a claim to the claim.  The node keeps it free of
overlaps: a script is the source of at most one claim, the target of at most
one claim, and never a source and a target.

A `Claim*` into the map is modelled by the key it is stored under.
-/

namespace Patchcoin

open Std.ExtTreeMap

/-- `g_claims`. -/
abbrev ClaimPool := Std.ExtTreeMap CScript Claim compare

namespace ClaimPool

variable (env : Env) (pool : ClaimPool) (claim : Claim)

/-- `Claim::IsUniqueSource`. -/
def isUniqueSource : Bool :=
  if !claim.m_is_btc && (claim.source.getD ⟨[]⟩).empty then false
  else if claim.m_is_btc && claim.getSource.empty then false
  else if pool.contains claim.getSource then false
  else !pool.toList.any fun entry => entry.2.getTarget == claim.getSource

/-- `Claim::IsUniqueTarget`. -/
def isUniqueTarget : Bool :=
  if claim.getTarget.empty then false
  else if pool.contains claim.getTarget then false
  else !pool.toList.any fun entry => entry.2.getTarget == claim.getTarget

/-- `Claim::IsUnique`. -/
def isUnique : Bool :=
  !claim.isSourceTargetAddress && !claim.isSourceTarget && pool.isUniqueSource claim &&
    pool.isUniqueTarget claim

/-- `Claim::Insert`: the map, the claim after its own `IsValid`, and the verdict. -/
def insertClaim : ClaimPool × Claim × Bool :=
  let (claim, result) := claim.isValid env
  if result != .OK || !pool.isUnique claim then (pool, claim, false)
  else
    let inserted := !pool.contains claim.getSource
    let pool : ClaimPool := pool.insertIfNew claim.getSource claim
    (pool, claim, inserted && !pool.isUniqueSource claim)

/-- The claim that an output script is attributed to: the first one in the order
of the map with that target. -/
def attributed (script : CScript) : Option (CScript × Claim) :=
  pool.toList.find? fun entry => script == entry.2.getTarget

/-- Write through a pointer into the map. -/
def write (key : CScript) (value : Claim) : ClaimPool :=
  if pool.contains key then pool.insert key value else pool

variable {env : Env} {pool : ClaimPool} {claim : Claim} {key script : CScript}

/-! ## Attribution -/

theorem attributed_some (h : pool.attributed script = some (key, claim)) :
    pool[key]? = some claim ∧ claim.getTarget = script := by
  have hmem : (key, claim) ∈ pool.toList := List.mem_of_find?_eq_some h
  have htarget := List.find?_some h
  exact ⟨mem_toList_iff_getElem?_eq_some.mp hmem,
    (beq_iff_eq.mp htarget).symm⟩

theorem getElem?_write (pool : ClaimPool) (key other : CScript) (value : Claim) :
    (pool.write key value)[other]? =
      if key = other then pool[other]?.map fun _ => value else pool[other]? := by
  unfold write
  split_ifs with hmem heq heq
  · subst heq
    rw [getElem?_insert_self]
    rw [contains_eq_isSome_getElem?] at hmem
    obtain ⟨old, hold⟩ := Option.isSome_iff_exists.mp hmem
    rw [hold, Option.map_some]
  · rw [getElem?_insert, if_neg (by simpa using heq)]
  · subst heq
    rw [contains_eq_isSome_getElem?, Option.not_isSome_iff_eq_none] at hmem
    rw [hmem, Option.map_none]
  · rfl

/-! ## Insertion -/

theorem not_contains_of_isUnique (h : pool.isUnique claim = true) :
    pool.contains claim.getSource = false := by
  unfold isUnique isUniqueSource at h
  simp only [Bool.and_eq_true] at h
  have hsource := h.1.2
  split_ifs at hsource with hempty hempty' hmem
  exact Bool.not_eq_true _ ▸ hmem

theorem isUniqueSource_of_contains (h : pool.contains claim.getSource = true) :
    pool.isUniqueSource claim = false := by
  unfold isUniqueSource
  split_ifs <;> rfl

theorem insertIfNew_of_isUnique (hunique : pool.isUnique claim = true) :
    pool.insertIfNew claim.getSource claim = pool.insert claim.getSource claim := by
  apply ext_getElem?
  intro key
  rw [getElem?_insertIfNew, getElem?_insert]
  have hnot : claim.getSource ∉ pool := by
    rw [← contains_iff_mem, not_contains_of_isUnique hunique]
    exact Bool.false_ne_true
  simp [hnot]

/-- A unique claim that is valid as it stands is inserted. -/
theorem insertClaim_of_isUnique (hvalid : claim.isValid env = (claim, .OK))
    (hunique : pool.isUnique claim = true) :
    pool.insertClaim env claim = (pool.insert claim.getSource claim, claim, true) := by
  have habsent := not_contains_of_isUnique hunique
  have hinsert := insertIfNew_of_isUnique hunique
  have hpresent : (pool.insert claim.getSource claim).contains claim.getSource = true := by
    rw [contains_insert]
    simp
  simp only [insertClaim, hvalid, hunique, habsent, hinsert, isUniqueSource_of_contains hpresent]
  rfl

/-! ## Overlaps -/

/-- The tests of `IsUnique` that do not look at the map. -/
def standalone (claim : Claim) : Bool :=
  !claim.isSourceTargetAddress && !claim.isSourceTarget &&
    !(!claim.m_is_btc && (claim.source.getD ⟨[]⟩).empty) &&
    !(claim.m_is_btc && claim.getSource.empty) && !claim.getTarget.empty

private theorem any_target_iff (script : CScript) :
    (pool.toList.any fun entry => entry.2.getTarget == script) = false ↔
      ∀ (key : CScript) (entry : Claim), pool[key]? = some entry → entry.getTarget ≠ script := by
  rw [List.any_eq_false]
  constructor
  · intro h key entry hentry htarget
    exact h (key, entry) (mem_toList_iff_getElem?_eq_some.mpr hentry)
      (beq_iff_eq.mpr htarget)
  · rintro h ⟨key, entry⟩ hmem htarget
    exact h key entry (mem_toList_iff_getElem?_eq_some.mp hmem)
      (beq_iff_eq.mp htarget)

private theorem contains_false_iff (script : CScript) : pool.contains script = false ↔
    ∀ (key : CScript) (entry : Claim), pool[key]? = some entry → key ≠ script := by
  rw [contains_eq_isSome_getElem?]
  constructor
  · rintro h key entry hentry rfl
    rw [hentry] at h
    cases h
  · intro h
    cases hentry : pool[script]? with
    | none => rfl
    | some entry => exact absurd rfl (h script entry hentry)

private theorem isUnique_eq (pool : ClaimPool) (claim : Claim) : pool.isUnique claim =
    (standalone claim && (!pool.contains claim.getSource &&
      !pool.toList.any fun entry => entry.2.getTarget == claim.getSource) &&
      (!pool.contains claim.getTarget &&
        !pool.toList.any fun entry => entry.2.getTarget == claim.getTarget)) := by
  unfold isUnique isUniqueSource isUniqueTarget standalone
  generalize (!claim.m_is_btc && (claim.source.getD ⟨[]⟩).empty) = nullSource
  generalize (claim.m_is_btc && claim.getSource.empty) = emptySource
  generalize claim.getTarget.empty = emptyTarget
  generalize claim.isSourceTargetAddress = sameAddress
  generalize claim.isSourceTarget = same
  cases nullSource <;> cases emptySource <;> cases emptyTarget <;> cases sameAddress <;>
    cases same <;> cases pool.contains claim.getSource <;> cases pool.contains claim.getTarget <;>
    simp

/-- A claim is unique if no claim in the map shares a script with it. -/
theorem isUnique_iff : pool.isUnique claim = true ↔ standalone claim = true ∧
    ∀ (key : CScript) (entry : Claim), pool[key]? = some entry →
      key ≠ claim.getSource ∧ entry.getTarget ≠ claim.getSource ∧
        key ≠ claim.getTarget ∧ entry.getTarget ≠ claim.getTarget := by
  rw [isUnique_eq]
  simp only [Bool.and_eq_true, Bool.not_eq_true', contains_false_iff, any_target_iff, and_assoc]
  constructor
  · rintro ⟨halone, h₁, h₂, h₃, h₄⟩
    exact ⟨halone, fun key entry hentry => ⟨h₁ key entry hentry, h₂ key entry hentry,
      h₃ key entry hentry, h₄ key entry hentry⟩⟩
  · rintro ⟨halone, h⟩
    exact ⟨halone, fun key entry hentry => (h key entry hentry).1,
      fun key entry hentry => (h key entry hentry).2.1,
      fun key entry hentry => (h key entry hentry).2.2.1,
      fun key entry hentry => (h key entry hentry).2.2.2⟩

/-- Every claim of one pool has a counterpart in the other, under the same key and
with the same target. -/
def Extends (pool' pool : ClaimPool) : Prop :=
  ∀ (key : CScript) (entry : Claim), pool[key]? = some entry →
    ∃ entry' : Claim, pool'[key]? = some entry' ∧ entry'.getTarget = entry.getTarget

/-- What overlaps with a pool overlaps with every extension of it. -/
theorem Extends.isUnique {pool' : ClaimPool} (h : pool'.Extends pool)
    (hunique : pool'.isUnique claim = true) : pool.isUnique claim = true := by
  rw [isUnique_iff] at hunique ⊢
  refine ⟨hunique.1, ?_⟩
  intro key entry hentry
  obtain ⟨entry', hentry', htarget⟩ := h key entry hentry
  rw [← htarget]
  exact hunique.2 key entry' hentry'

/-! ## Parts of the claims in a pool -/

/-- The pool with only a part of each claim kept. -/
def image {γ : Type*} (part : Claim → γ) (pool : ClaimPool) : Std.ExtTreeMap CScript γ compare :=
  pool.map fun _ claim => part claim

section Image

variable {γ δ : Type*} {part : Claim → γ} {pool' : ClaimPool}

@[simp] theorem getElem?_image (pool : ClaimPool) (key : CScript) :
    (pool.image part)[key]? = pool[key]?.map part := getElem?_map

@[simp] theorem contains_image (pool : ClaimPool) (key : CScript) :
    (pool.image part).contains key = pool.contains key := contains_map

theorem toList_image (pool : ClaimPool) :
    (pool.image part).toList = pool.toList.map fun entry => (entry.1, part entry.2) :=
  toList_map

theorem image_eq_iff : pool.image part = pool'.image part ↔
    ∀ key : CScript, pool[key]?.map part = pool'[key]?.map part := by
  constructor
  · intro h key
    rw [← getElem?_image, h, getElem?_image]
  · intro h
    apply ext_getElem?
    intro key
    rw [getElem?_image, getElem?_image, h key]

/-- A coarser part of the claims is determined by a finer one. -/
theorem image_eq_of_image_eq {coarse : Claim → δ} (h : pool.image part = pool'.image part)
    (hcoarse : ∀ claim claim', part claim = part claim' → coarse claim = coarse claim') :
    pool.image coarse = pool'.image coarse := by
  rw [image_eq_iff] at h ⊢
  intro key
  have hkey := h key
  cases hpool : pool[key]? with
  | none =>
    cases hpool' : pool'[key]? with
    | none => rfl
    | some claim' => rw [hpool, hpool'] at hkey; exact absurd hkey (by simp)
  | some claim =>
    cases hpool' : pool'[key]? with
    | none => rw [hpool, hpool'] at hkey; exact absurd hkey (by simp)
    | some claim' =>
      rw [hpool, hpool'] at hkey
      exact congrArg some (hcoarse claim claim' (Option.some.inj hkey))

theorem image_insert (pool : ClaimPool) (key : CScript) (claim : Claim) :
    image part (pool.insert key claim) = (pool.image part).insert key (part claim) := by
  apply ext_getElem?
  intro other
  rw [getElem?_image, getElem?_insert, getElem?_insert]
  split_ifs
  · rfl
  · exact (getElem?_image pool other).symm

/-- A write that keeps the part of the claim keeps the image of the pool. -/
theorem image_write (hentry : pool[key]? = some claim) {value : Claim}
    (hpart : part value = part claim) : (pool.write key value).image part = pool.image part := by
  rw [image_eq_iff]
  intro other
  rw [getElem?_write]
  split_ifs with heq
  · subst heq
    rw [hentry]
    exact congrArg some hpart
  · rfl

theorem extends_of_image_eq (h : pool.image Claim.getTarget = pool'.image Claim.getTarget) :
    pool'.Extends pool := by
  intro key entry hentry
  have hkey := image_eq_iff.mp h key
  rw [hentry, Option.map_some] at hkey
  obtain ⟨entry', hentry', htarget⟩ := Option.map_eq_some_iff.mp hkey.symm
  exact ⟨entry', hentry', htarget⟩

/-- Whether a claim overlaps with a pool is a matter of sources and targets. -/
theorem isUnique_congr (h : pool.image Claim.getTarget = pool'.image Claim.getTarget)
    (claim : Claim) : pool.isUnique claim = pool'.isUnique claim := by
  rw [Bool.eq_iff_iff]
  exact ⟨(extends_of_image_eq h.symm).isUnique, (extends_of_image_eq h).isUnique⟩

/-- The attribution of an output is a matter of the parts that hold the target. -/
theorem attributed_congr (h : pool.image part = pool'.image part)
    (htarget : ∀ claim claim', part claim = part claim' → claim.getTarget = claim'.getTarget)
    (script : CScript) : (pool.attributed script).map (Prod.map id part) =
      (pool'.attributed script).map (Prod.map id part) := by
  classical
  -- the target of a part, read off any claim that has this part
  let target (kept : γ) : CScript :=
    if hkept : ∃ claim, part claim = kept then hkept.choose.getTarget else ⟨[]⟩
  have hread (claim : Claim) : target (part claim) = claim.getTarget := by
    have hkept : ∃ other, part other = part claim := ⟨claim, rfl⟩
    simp only [target, dif_pos hkept]
    exact htarget _ _ hkept.choose_spec
  have hfind (pool : ClaimPool) : (pool.attributed script).map (Prod.map id part) =
      (pool.image part).toList.find? fun entry => script == target entry.2 := by
    rw [toList_image, List.find?_map, attributed]
    simp only [Function.comp_def, hread]
    rfl
  rw [hfind, hfind, h]

end Image

end ClaimPool

end Patchcoin
